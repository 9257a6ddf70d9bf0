import FunaiChain.Registry.Lifecycle

/-!
# FunaiChain.Registry.ModelIndex

Two indexes of models against the records of the worker module.

* The declarations in the model registry.  `DeclareInstalled` adds a model that the
  worker supports, and the removal of a worker takes out everything it declared.
  `UpdateModels` leaves the index, so a declaration outlives the support of its model
  (`update_leaves_installed`), unless every update keeps what is declared
  (`installed_supported`).
* The worker module's own index, `0x02 | model | 0x00 | address`.  A scan for a model
  also meets keys of longer models that continue it with a zero byte.  What is left of
  such a key is longer than an address, and no worker is stored under it
  (`mem_getWorkersByModel`).  The lists in the records go through JSON, which would
  repair an id that is not valid UTF-8, and the keys do not.  But the ids of a message
  are proto3 strings, and the decoder refuses a message in which one is not valid
  (`storesModels`).  So the index is exact (`index_exact`).
-/

namespace FunaiChain.Registry

open Settlement (devAddr)

variable {env : Env} {block : Vrf.Block} {s s' : State} {lab : Label} {a : Addr} {m : ModelId}
  {c : Chain} {ev : Event}

section
open Modelreg Modelreg.State
variable {height : Int}

/-! ## the index along a step -/

theorem proposeModel_installed {s s' : Modelreg.State} {msg : Modelreg.MsgModelProposal}
    (h : proposeModel env.toModelreg height s msg = .ok s') : s'.installed = s.installed := by
  obtain ⟨_, -, h⟩ := bind_eq_ok.mp h
  obtain ⟨_, -, h⟩ := bind_eq_ok.mp h
  obtain ⟨_, -, h⟩ := bind_eq_ok.mp h
  cases h
  rfl

theorem updateModelStats_installed {s s' : Modelreg.State} {msg : Modelreg.MsgUpdateModelStats}
    (h : updateModelStats env.toModelreg height s msg = .ok s') : s'.installed = s.installed := by
  obtain ⟨_, -, h⟩ := bind_eq_ok.mp h
  cases hmodel : s.getModel msg.modelId with
  | none => grind
  | some =>
    simp only [hmodel] at h
    cases h
    exact checkAndActivateModel_installed _ _

theorem recordModelTask_installed (s : Modelreg.State) (m : ModelId) (fee latencyMs : UInt64) :
    (recordModelTask s m fee latencyMs).installed = s.installed := by
  unfold recordModelTask
  split
  · rfl
  · dsimp only
    split <;> rfl

/-- Only declarations and removals touch the index. -/
theorem Step.installed_eq (h : Step env block s lab s') (hdeclare : ∀ a m, lab ≠ .declare a m)
    (hremove : ∀ a c, lab ≠ .remove a c) : s'.modelreg.installed = s.modelreg.installed := by
  have htold := h.told
  cases lab with
  | declare a m => exact absurd rfl (hdeclare a m)
  | remove a c => exact absurd rfl (hremove a c)
  | stake | unjail | jail | tombstone | slash => exact (Modelreg.onWorkerStateChange_eq_ok htold).1
  | propose => exact proposeModel_installed htold
  | govern => exact updateModelStats_installed htold
  | task =>
    rw [show s'.modelreg = _ from htold]
    exact recordModelTask_installed _ _ _ _
  | _ => rw [show s'.modelreg = s.modelreg from htold]

theorem Step.installed_declare (h : Step env block s (.declare a m) s') :
    s'.modelreg.installed = (s.modelreg.setWorkerInstalledModel a m).installed :=
  (refreshModelStats_eq_ok h.told.2.2.2).1

/-- What the index says of a worker after a step. -/
theorem Step.has_installed (h : Step env block s lab s') {b : Addr} (hlen : b.length = 20)
    (hhas : s'.modelreg.hasWorkerInstalledModel b m = true) : lab = .declare b m ∨
    s.modelreg.hasWorkerInstalledModel b m = true ∧ ∀ c, lab ≠ .remove b c := by
  by_cases hdeclare : ∃ a m', lab = .declare a m'
  · obtain ⟨a, m', rfl⟩ := hdeclare
    unfold Modelreg.State.hasWorkerInstalledModel at hhas
    rw [h.installed_declare] at hhas
    obtain hkey | hbefore := has_setWorkerInstalledModel.mp hhas
    · have hlena : a.length = 20 := env.signer_length a (h.signed a rfl)
      obtain ⟨rfl, rfl⟩ := workerInstalledModelKey_inj (hlena.trans hlen.symm) hkey
      exact .inl rfl
    · exact .inr ⟨hbefore, fun c => by simp⟩
  by_cases hremove : ∃ a c, lab = .remove a c
  · obtain ⟨a, c, rfl⟩ := hremove
    obtain ⟨hbefore, hother⟩ := ((Modelreg.onWorkerRemoved_eq_ok h.told).1 _).mp hhas
    refine .inr ⟨hbefore, ?_⟩
    rintro c' heq
    obtain ⟨rfl, -⟩ := Label.remove.inj heq
    exact hother m rfl
  · unfold Modelreg.State.hasWorkerInstalledModel at hhas
    rw [h.installed_eq (fun a m' e => hdeclare ⟨a, m', e⟩) (fun a c e => hremove ⟨a, c, e⟩)] at hhas
    exact .inr ⟨hhas, fun c e => hremove ⟨b, c, e⟩⟩

/-! ## what is declared is supported -/

/-- Whatever the index says a worker installed, the worker lists. -/
def State.Supported (s : State) : Prop :=
  ∀ a m, a.length = 20 → s.modelreg.hasWorkerInstalledModel a m = true →
    ∃ w p, s.entry a = some (w, p) ∧ m ∈ p.supportedModels

/-- Only registration, update and removal touch the list. -/
theorem Change.supportedModels {wp : WorkerParams} {ep : EntryParams} {w : Worker} {p : Profile}
    {e' : Option (Worker × Profile)} (h : Change height wp ep lab (some (w, p)) e') :
    (∃ a models, lab = .update a models ∧
    ∃ w' p', e' = some (w', p') ∧ p'.supportedModels = models.map stored) ∨
    (∃ a c, lab = .remove a c) ∨
    ∃ w' p', e' = some (w', p') ∧ p'.supportedModels = p.supportedModels := by
  cases h with
  | update a models => exact .inl ⟨a, models, rfl, _, _, rfl, rfl⟩
  | remove a => exact .inr (.inl ⟨a, _, rfl⟩)
  | _ => exact .inr (.inr ⟨_, _, rfl, rfl⟩)

theorem Step.supported (h : Step env block s lab s')
    (hkeeps : ∀ a models m, lab = .update a models →
    s.modelreg.hasWorkerInstalledModel a m = true → m ∈ models.map stored) (hs : s.Supported) :
    s'.Supported := by
  intro b m hlen hhas
  obtain rfl | ⟨hbefore, hstays⟩ := h.has_installed hlen hhas
  · -- a declaration is refused unless the worker lists the model
    obtain ⟨-, -, hsupports, -⟩ := h.told
    obtain ⟨hregistered, hlists⟩ := Bool.and_eq_true_iff.mp hsupports
    obtain ⟨w, hfound⟩ := Option.isSome_iff_exists.mp hregistered
    refine ⟨w, s.profile b, ?_, by simpa using hlists⟩
    rw [h.others b (by simp [Label.addr]), State.entry_of_get hfound]
  · obtain ⟨w, p, hentry, hlists⟩ := hs b m hlen hbefore
    by_cases haddr : lab.addr = some b
    · have hchange := h.change b haddr
      rw [hentry] at hchange
      obtain ⟨a, models, rfl, w', p', hentry', hmodels⟩ | ⟨a, c, rfl⟩ |
        ⟨w', p', hentry', hmodels⟩ :=
        hchange.supportedModels
      · cases haddr
        exact ⟨w', p', hentry', hmodels ▸ hkeeps _ models m rfl hbefore⟩
      · cases haddr
        exact absurd rfl (hstays c)
      · exact ⟨w', p', hentry', hmodels ▸ hlists⟩
    · exact ⟨w, p, (h.others b haddr).trans hentry, hlists⟩

/-- An update of its models keeps every model that the worker has declared. -/
def keepsInstalled (env : Env) (c : Chain) : Event → Bool
  | .tx (.updateModels msg) => (env.accAddressFromBech32 msg.creator).all fun a =>
      (c.state.modelreg.getWorkerInstalledModels a).all fun m =>
        (msg.supportedModels.map stored).contains m
  | _ => true

theorem keepsInstalled_update {msg : MsgUpdateModels}
    (h : keepsInstalled env c (.tx (.updateModels msg)) = true)
    (hcreator : env.accAddressFromBech32 msg.creator = some a)
    (hhas : c.state.modelreg.hasWorkerInstalledModel a m = true) :
    m ∈ msg.supportedModels.map stored := by
  simp only [keepsInstalled] at h
  rw [hcreator, Option.all_some, List.all_eq_true] at h
  exact List.contains_iff_mem.mp (h m (Modelreg.State.mem_getWorkerInstalledModels.mpr hhas))

theorem Chain.exec_supported {c' : Chain} (h : c.exec env ev = .ok c')
    (hkeeps : keepsInstalled env c ev = true) (hs : c.state.Supported) : c'.state.Supported := by
  obtain ⟨labs, hsteps, hlabs⟩ := exec_steps h
  by_cases hupdate : ∃ a models, .update a models ∈ labs
  · -- the message is the only step, so the condition speaks of the state before it
    obtain ⟨a, models, hmem⟩ := hupdate
    obtain ⟨msg, rfl, -, -⟩ := (hlabs _ hmem).causes
    obtain hsame | ⟨lab, hstands, hstep⟩ := exec_tx h
    · rwa [hsame]
    · refine hstep.supported (fun b models' m heq hhas => ?_) hs
      subst heq
      obtain ⟨b', hcreator, hb⟩ := hstands
      obtain ⟨rfl, rfl⟩ := Label.update.inj hb
      exact keepsInstalled_update hkeeps hcreator hhas
  · refine hsteps.invariant (P := State.Supported) (fun s s' lab hlab hs hstep => ?_) hs
    refine hstep.supported (fun a models m heq => ?_) hs
    subst heq
    exact absurd ⟨a, models, hlab⟩ hupdate

/-- **Installed implies supported**, in every run whose updates keep the declared
models. -/
theorem installed_supported {c₀ c : Chain} {evs : List Event}
    (hempty : ∀ key, c₀.state.modelreg.installed.has key = false)
    (h : RunWith env (fun c ev => keepsInstalled env c ev = true) c₀ evs c) (a : Addr) (m : ModelId)
    (hlen : a.length = 20) (hhas : c.state.modelreg.hasWorkerInstalledModel a m = true) :
    ∃ w, c.state.world.workers.get a = some w ∧ m ∈ (c.state.profile a).supportedModels := by
  have hs₀ : c₀.state.Supported := by
    intro b m' _ hhas
    rw [Modelreg.State.hasWorkerInstalledModel, hempty] at hhas
    contradiction
  have hs : c.state.Supported := Trace.invariant (P := fun c => c.state.Supported)
      (fun _ _ _ hs hok hexec => Chain.exec_supported hexec hok hs) hs₀ h
  obtain ⟨w, p, hentry, hlists⟩ := hs a m hlen hhas
  obtain ⟨hfound, rfl⟩ := State.entry_eq_some.mp hentry
  exact ⟨w, hfound, hlists⟩

/-- A worker declares its model and then takes on another one as well. -/
theorem devDeclared_supported :
    ∃ c, RunWith devEnv (fun c ev => keepsInstalled devEnv c ev = true) (devChain 1)
        (devDeclared "alice@worker.example" 1 ++
          [.tx (.updateModels ⟨"alice@worker.example", [[65], devModel]⟩)]) c ∧
      c.state.modelreg.hasWorkerInstalledModel (devAddr "alice@worker.example") devModel = true ∧
      ∃ w, c.state.world.workers.get (devAddr "alice@worker.example") = some w ∧
        devModel ∈ (c.state.profile (devAddr "alice@worker.example")).supportedModels := by
  refine exists_and_of (by decide +kernel) fun c hrun hhas => ?_
  exact installed_supported (devChain_installed 1) hrun _ _ (by decide +kernel) hhas

/-- **An update leaves the index alone**: the model that it drops stays declared. -/
theorem update_leaves_installed :
    ∃ c, Run devEnv (devChain 1) (devDeclared "alice@worker.example" 1 ++
        [.tx (.updateModels ⟨"alice@worker.example", [[65]]⟩)]) c ∧
      (c.state.modelreg.hasWorkerInstalledModel (devAddr "alice@worker.example") devModel &&
        (c.state.profile (devAddr "alice@worker.example")).supportedModels == [[65]]) = true := by
  decide +kernel

end

open Modelreg (ModelId)
open State (modelIndexKey modelIndexIteratorPrefix)
open State
variable {key : Bytes} {c' : Chain} {w : Worker}

/-! ## keys -/

theorem modelIndexKey_inj {a' : Addr} {m' : ModelId} (hlen : a.length = a'.length)
    (h : modelIndexKey m a = modelIndexKey m' a') : m = m' ∧ a = a' := by
  obtain ⟨hm, ha⟩ := List.append_inj' h hlen
  have hm := (List.append_inj' hm rfl).1
  exact ⟨List.append_cancel_left hm, ha⟩

theorem has_foldl_put (t : Store Bytes Unit) (ms : List ModelId) (a : Addr) :
    (ms.foldl (fun t m => t.put (modelIndexKey m a) ()) t).has key = true ↔
    t.has key = true ∨ ∃ m ∈ ms, modelIndexKey m a = key := by
  induction ms generalizing t with
  | nil => simp
  | cons m _ ih =>
    have hone : (t.put (modelIndexKey m a) ()).has key = true ↔
        t.has key = true ∨ modelIndexKey m a = key := by
      rw [Table.has, Table.get_put]
      split
      · next hkey => simp [hkey]
      · next hkey => simp [hkey, Table.has]
    rw [List.foldl_cons, ih, hone, or_assoc]
    simp

theorem has_foldl_erase (t : Store Bytes Unit) (ms : List ModelId) (a : Addr) :
    (ms.foldl (fun t m => t.erase (modelIndexKey m a)) t).has key = true ↔
    t.has key = true ∧ ∀ m ∈ ms, modelIndexKey m a ≠ key := by
  induction ms generalizing t with
  | nil => simp
  | cons m _ ih =>
    have hone : (t.erase (modelIndexKey m a)).has key = true ↔
        t.has key = true ∧ modelIndexKey m a ≠ key := by
      rw [Table.has, Table.get_erase]
      split
      · next hkey => simp [hkey]
      · next hkey => simp [hkey, Table.has]
    rw [List.foldl_cons, ih, hone, and_assoc]
    simp

/-! ## the invariant -/

/-- The models that a stored worker lists. -/
def State.Lists (s : State) (a : Addr) (m : ModelId) : Prop :=
  ∃ w p, s.entry a = some (w, p) ∧ m ∈ p.supportedModels

/-- The index names what the workers list, and workers have addresses of accounts. -/
structure State.ListsIndexed (s : State) : Prop where
  length : ∀ a w, s.world.workers.get a = some w → a.length = 20
  index : ∀ key, s.modelIndex.has key = true ↔ ∃ a m, s.Lists a m ∧ modelIndexKey m a = key

theorem State.ListsIndexed.length_of_lists (hs : s.ListsIndexed) (h : s.Lists a m) :
    a.length = 20 := by
  obtain ⟨w, p, hentry, -⟩ := h
  exact hs.length a w (entry_eq_some.mp hentry).1

/-- One worker's list is replaced by another one. -/
theorem State.ListsIndexed.replaced (hs : s.ListsIndexed) (old new : List ModelId)
    (hlen : a.length = 20) (hold : ∀ m, s.Lists a m ↔ m ∈ old) (hnew : ∀ m, s'.Lists a m ↔ m ∈ new)
    (hothers : ∀ b m, b ≠ a → (s'.Lists b m ↔ s.Lists b m))
    (hindex : ∀ key, s'.modelIndex.has key = true ↔
    (s.modelIndex.has key = true ∧ ∀ m ∈ old, modelIndexKey m a ≠ key) ∨
    ∃ m ∈ new, modelIndexKey m a = key) (key : Bytes) :
    s'.modelIndex.has key = true ↔ ∃ b m, s'.Lists b m ∧ modelIndexKey m b = key := by
  rw [hindex, hs.index]
  constructor
  · grind
  · rintro ⟨b, m, hlists, rfl⟩
    by_cases hb : b = a
    · grind
    · have hlists := (hothers b m hb).mp hlists
      refine .inl ⟨⟨b, m, hlists, rfl⟩, fun m' _ heq => hb ?_⟩
      exact (modelIndexKey_inj (hlen.trans (hs.length_of_lists hlists).symm) heq).2.symm

/-! ## steps -/

/-- The models that a label lists. -/
def Label.models : Label → List ModelId
  | .register _ msg _ => msg.supportedModels
  | .update _ models => models
  | _ => []

theorem map_stored {ms : List ModelId} (h : ∀ m ∈ ms, stored m = m) : ms.map stored = ms := by
  rw [List.map_congr_left h, List.map_id']

/-- A step that leaves the lists leaves the index. -/
theorem Step.lists_eq (h : Step env block s lab s') (hregister : ∀ a msg c, lab ≠ .register a msg c)
    (hupdate : ∀ a ms, lab ≠ .update a ms) (hremove : ∀ a c, lab ≠ .remove a c) (b : Addr)
    (m : ModelId) : s'.Lists b m ↔ s.Lists b m := by
  unfold State.Lists
  by_cases haddr : lab.addr = some b
  · have hchange := h.change b haddr
    cases hentry : s.entry b with
    | none =>
      generalize s'.entry b = e' at hchange
      rw [hentry] at hchange
      cases hchange with
      | register a msg stake => exact absurd rfl (hregister a msg stake)
    | some e =>
      obtain ⟨w, p⟩ := e
      rw [hentry] at hchange
      obtain ⟨a, ms, rfl, -⟩ | ⟨a, c, rfl⟩ | ⟨w', p', hentry', hsame⟩ := hchange.supportedModels
      · exact absurd rfl (hupdate a ms)
      · exact absurd rfl (hremove a c)
      · simp [hentry', hsame]
  · rw [h.others b haddr]

theorem Step.lists_others (h : Step env block s lab s') (haddr : lab.addr = some a) (b : Addr)
    (m : ModelId) (hb : b ≠ a) : s'.Lists b m ↔ s.Lists b m := by
  unfold State.Lists
  rw [h.others b (by rw [haddr]; simpa using hb.symm)]

theorem State.lists_iff {p : Profile} (h : s.entry a = some (w, p)) (m : ModelId) :
    s.Lists a m ↔ m ∈ p.supportedModels := by
  simp [State.Lists, h]

/-- **The index stays exact** along a step whose models are stored as they were sent. -/
theorem Step.index_stays (h : Step env block s lab s') (hplain : ∀ m ∈ lab.models, stored m = m)
    (hs : s.ListsIndexed) (key : Bytes) :
    s'.modelIndex.has key = true ↔ ∃ b m, s'.Lists b m ∧ modelIndexKey m b = key := by
  cases lab with
  | register a msg stake =>
    have hchange := h.change a rfl
    generalize hentry : s.entry a = e, hentry' : s'.entry a = e' at hchange
    cases hchange with
    | register =>
      have hplain : ∀ m ∈ msg.supportedModels, stored m = m := hplain
      refine hs.replaced [] msg.supportedModels (env.signer_length a (h.signed a rfl))
        (by simp [State.Lists, hentry]) (fun m => ?_) (h.lists_others rfl) (fun key => ?_) key
      · rw [lists_iff hentry', newProfile, map_stored hplain]
      · rw [h.index]
        exact (has_foldl_put s.modelIndex msg.supportedModels a).trans (by simp)
  | update a models =>
    have hchange := h.change a rfl
    generalize hentry : s.entry a = e, hentry' : s'.entry a = e' at hchange
    cases hchange with
    | update =>
      obtain ⟨hfound, rfl⟩ := entry_eq_some.mp hentry
      have hplain : ∀ m ∈ models, stored m = m := hplain
      refine hs.replaced _ models (hs.length a _ hfound) (lists_iff hentry) (fun m => ?_)
        (h.lists_others rfl) (fun key => ?_) key
      · rw [lists_iff hentry', map_stored hplain]
      · rw [h.index]
        exact (has_foldl_put _ models a).trans (or_congr_left (has_foldl_erase _ _ a))
  | remove a coin =>
    have hchange := h.change a rfl
    generalize hentry : s.entry a = e, hentry' : s'.entry a = e' at hchange
    cases hchange with
    | remove =>
      obtain ⟨hfound, rfl⟩ := entry_eq_some.mp hentry
      refine hs.replaced _ [] (hs.length a _ hfound) (lists_iff hentry)
        (by simp [State.Lists, hentry']) (h.lists_others rfl) (fun key => ?_) key
      rw [h.index]
      exact (has_foldl_erase s.modelIndex (s.profile a).supportedModels a).trans (by simp)
  | _ =>
    have hsame : s'.modelIndex = s.modelIndex := h.index
    rw [hsame, hs.index]
    simp [h.lists_eq nofun nofun nofun]

/-- Whoever is new in the store has signed. -/
theorem Step.length (h : Step env block s lab s')
    (hs : ∀ a w, s.world.workers.get a = some w → a.length = 20) (a : Addr) (w : Worker)
    (hw : s'.world.workers.get a = some w) : a.length = 20 := by
  cases hfound : s.world.workers.get a with
  | some w₀ => exact hs a w₀ hfound
  | none =>
    have hnone := entry_eq_none.mpr hfound
    have hentry := entry_of_get hw
    by_cases haddr : lab.addr = some a
    · have hchange := h.change a haddr
      rw [hnone] at hchange
      generalize s'.entry a = e' at hchange
      cases hchange with
      | register => exact env.signer_length a (h.signed a haddr)
    · rw [h.others a haddr, hnone] at hentry
      contradiction

/-! ## events -/

/-- The models that an event lists. -/
def Event.models : Event → List ModelId
  | .tx (.registerWorker msg) => msg.supportedModels
  | .tx (.updateModels msg) => msg.supportedModels
  | _ => []

theorem Event.stands_models (h : ev.Stands env lab) (hm : m ∈ lab.models) : m ∈ ev.models := by
  have hcauses := h.causes
  cases lab with
  | register =>
    obtain ⟨rfl, -⟩ := hcauses
    exact hm
  | update =>
    obtain ⟨msg, rfl, -, rfl⟩ := hcauses
    exact hm
  | _ => simp [Label.models] at hm

/-- The guarantee of the decoder: a proto3 string is valid UTF-8, so every listed model is
stored as it was sent. -/
def storesModels (_ : Chain) (ev : Event) : Bool := ev.models.all fun m => stored m = m

theorem Chain.exec_indexed (h : c.exec env ev = .ok c') (hok : storesModels c ev = true)
    (hs : c.state.ListsIndexed) : c'.state.ListsIndexed := by
  obtain ⟨labs, hsteps, hlabs⟩ := exec_steps h
  refine hsteps.invariant (P := State.ListsIndexed) (fun s s' lab hlab hs hstep => ?_) hs
  refine ⟨hstep.length hs.length, hstep.index_stays (fun m hm => ?_) hs⟩
  have hmem := Event.stands_models (hlabs lab hlab) hm
  simpa using List.all_eq_true.mp hok m hmem

/-! ## the scan -/

/-- What a scan finds. -/
theorem mem_scan : w ∈ s.getWorkersByModel m ↔ ∃ key, s.modelIndex.has key = true ∧
    ∃ rest, key = modelIndexIteratorPrefix m ++ rest ∧ s.world.workers.get rest = some w := by
  simp only [getWorkersByModel, List.mem_filterMap, List.mem_filter, List.mem_map]
  constructor
  · rintro ⟨key, ⟨⟨⟨k, u⟩, hentry, rfl⟩, hprefix⟩, hget⟩
    obtain ⟨rest, rfl⟩ := List.isPrefixOf_iff_prefix.mp hprefix
    rw [List.drop_left] at hget
    exact ⟨_, by rw [Table.has, Table.mem_entries.mp hentry]; rfl, rest, rfl, hget⟩
  · rintro ⟨key, hhas, rest, rfl, hget⟩
    obtain ⟨u, hu⟩ := Option.isSome_iff_exists.mp hhas
    refine ⟨_, ⟨⟨(_, u), Table.mem_entries.mpr hu, rfl⟩, ?_⟩, by rwa [List.drop_left]⟩
    exact List.isPrefixOf_iff_prefix.mpr ⟨rest, rfl⟩

/-- **A scan finds the workers that list the model**: what is left of a longer key is not
an address. -/
theorem mem_getWorkersByModel (hs : s.ListsIndexed) : w ∈ s.getWorkersByModel m ↔
    s.world.workers.get w.address = some w ∧ m ∈ (s.profile w.address).supportedModels := by
  rw [mem_scan]
  constructor
  · rintro ⟨key, hhas, rest, rfl, hget⟩
    obtain rfl : w.address = rest := s.world.workers.lawful rest w hget
    obtain ⟨b, m', hlists, heq⟩ := (hs.index _).mp hhas
    have hlen := (hs.length_of_lists hlists).trans (hs.length _ w hget).symm
    have heq : modelIndexKey m' b = modelIndexKey m w.address := heq
    obtain ⟨rfl, rfl⟩ := modelIndexKey_inj hlen heq
    exact ⟨hget, (lists_iff (entry_of_get hget) _).mp hlists⟩
  · rintro ⟨hget, hm⟩
    refine ⟨modelIndexKey m w.address, (hs.index _).mpr ⟨_, m, ?_, rfl⟩, _, rfl, hget⟩
    exact (lists_iff (entry_of_get hget) _).mpr hm

theorem nodup_getWorkersByModel (s : State) (m : ModelId) : (s.getWorkersByModel m).Nodup := by
  unfold getWorkersByModel
  rw [List.filterMap_filter]
  refine List.Nodup.filterMap (fun key key' w hw hw' => ?_) s.modelIndex.nodup_keys
  -- two keys that lead to one worker have the same rest
  simp only [Option.mem_def, Option.ite_none_right_eq_some] at hw hw'
  obtain ⟨rest, rfl⟩ := List.isPrefixOf_iff_prefix.mp hw.1
  obtain ⟨rest', rfl⟩ := List.isPrefixOf_iff_prefix.mp hw'.1
  rw [List.drop_left] at hw hw'
  have hrest : w.address = rest := s.world.workers.lawful _ w hw.2
  have hrest' : w.address = rest' := s.world.workers.lawful _ w hw'.2
  rw [← hrest, ← hrest']

/-- **The index is exact** in every run of decoded messages from an empty store. -/
theorem index_exact {c₀ : Chain} {evs : List Event}
    (hworkers : ∀ a, c₀.state.world.workers.get a = none)
    (hindex : ∀ key, c₀.state.modelIndex.has key = false)
    (h : RunWith env (fun c ev => storesModels c ev = true) c₀ evs c) (m : ModelId) :
    (∀ w, w ∈ c.state.getWorkersByModel m ↔ c.state.world.workers.get w.address = some w ∧
      m ∈ (c.state.profile w.address).supportedModels) ∧ (c.state.getWorkersByModel m).Nodup := by
  have hs₀ : c₀.state.ListsIndexed := by
    refine ⟨fun a w hw => by rw [hworkers] at hw; contradiction, fun key => ?_⟩
    simp [hindex, State.Lists, entry, hworkers]
  have hs : c.state.ListsIndexed := Trace.invariant (P := fun c => c.state.ListsIndexed)
      (fun _ _ _ hs hok hexec => Chain.exec_indexed hexec hok hs) hs₀ h
  exact ⟨fun w => mem_getWorkersByModel hs, nodup_getWorkersByModel _ _⟩

/-- A worker lists a model, and another one a longer model that continues it with a zero
byte and twenty more. -/
def devPrefixes : List Event :=
  [devRegister "alice@worker.example" 1 [[65], [65]],
    devRegister "bobby@worker.example" 2 [65 :: 0 :: List.replicate 20 66]]

/-- The scan for the shorter model does not meet the worker of the longer one. -/
theorem devPrefixes_exact :
    ∃ c, RunWith devEnv (fun c ev => storesModels c ev = true) (devChain 1) devPrefixes c ∧
      (c.state.getWorkersByModel [65]).map Worker.address = [devAddr "alice@worker.example"] ∧
      ∀ w, w ∈ c.state.getWorkersByModel [65] ↔ c.state.world.workers.get w.address = some w ∧
        [65] ∈ (c.state.profile w.address).supportedModels := by
  refine exists_and_of (by decide +kernel) fun c hrun _ => ?_
  have hindex : ∀ key, (devChain 1).state.modelIndex.has key = false :=
    fun key => congrArg Option.isSome (Table.get_empty key)
  exact (index_exact (devChain_workers 1) hindex hrun [65]).1

end FunaiChain.Registry
