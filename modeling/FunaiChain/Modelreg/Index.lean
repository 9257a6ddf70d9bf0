import FunaiChain.Modelreg.Keeper
import Mathlib.Data.Finset.Card

/-!
# FunaiChain.Modelreg.Index

The reverse index of installations, read back from its keys, and the statistics that
are refreshed from it.

`WorkerInstalledModelKey` writes the address and the model id with a zero byte between
them.  Asked for the models of a worker, the keeper cuts the whole prefix off, and gets
back what was written (`mem_getWorkerInstalledModels`).  Asked for the workers of a
model, it cuts the key at its first zero byte, which is the separator only if the
address has no zero byte of its own (`mem_getInstalledWorkersByModel`).

`RefreshModelStats` counts the active workers that the index names for a model and
their operators; the callbacks of the worker module run it for every model of one
worker.  Only `OnWorkerRemoved` touches the index: it takes the worker out first.
-/

namespace FunaiChain.Modelreg

open State

variable {a : Addr} {m : ModelId}

section
variable {a' : Addr} {m' : ModelId} {rest : Bytes}

/-! ## the first zero byte -/

/-- A text is cut at its first zero byte. -/
theorem findIdx?_zero {a : Bytes} (h : 0 ∉ a) (m : Bytes) :
    (a ++ 0 :: m).findIdx? (· == 0) = some a.length := by
  have hnone : a.findIdx? (· == 0) = none := by grind
  rw [List.findIdx?_append, hnone, List.findIdx?_cons]
  simp

/-- What stands before the first zero byte has none. -/
theorem split_of_findIdx? {i : Nat} (h : rest.findIdx? (· == 0) = some i) :
    rest = rest.take i ++ 0 :: rest.drop (i + 1) ∧ 0 ∉ rest.take i := by
  obtain ⟨hlt, hzero, hbefore⟩ := List.findIdx?_eq_some_iff_getElem.mp h
  have hget : rest[i] = 0 := by simpa using hzero
  refine ⟨?_, fun hmem => ?_⟩
  · rw [← hget, List.getElem_cons_drop, List.take_append_drop]
  · obtain ⟨j, hj, heq⟩ := List.mem_iff_getElem.mp hmem
    rw [List.length_take, Nat.lt_min] at hj
    rw [List.getElem_take] at heq
    exact hbefore j hj.1 (by simp [heq])

/-! ## keys -/

namespace State

theorem workerInstalledModelKey_eq (a : Addr) (m : ModelId) :
    workerInstalledModelKey a m = 0x03 :: (a ++ 0 :: m) := by
  simp [workerInstalledModelKey, workerInstalledModelPrefix]

/-- Addresses of one length are told apart in the keys. -/
theorem workerInstalledModelKey_inj (hlen : a.length = a'.length)
    (h : workerInstalledModelKey a m = workerInstalledModelKey a' m') : a = a' ∧ m = m' := by
  rw [workerInstalledModelKey_eq, workerInstalledModelKey_eq] at h
  obtain ⟨ha, hm⟩ := List.append_inj (List.cons.inj h).2 hlen
  exact ⟨ha, (List.cons.inj hm).2⟩

/-- The address read from a key of the index. -/
theorem installedAddr_eq_some :
    installedAddr m (0x03 :: rest) = some a ↔ 0 ∉ a ∧ rest = a ++ 0 :: m := by
  have hdrop : (0x03 :: rest).drop workerInstalledModelPrefix.length = rest := rfl
  constructor
  · intro h
    unfold installedAddr at h
    simp only [hdrop] at h
    cases hi : rest.findIdx? (· == 0) with
    | none => grind
    | some =>
      obtain ⟨hsplit, hzero⟩ := split_of_findIdx? hi
      rw [hi] at h
      simp only [Option.ite_none_right_eq_some] at h
      obtain ⟨rfl, h⟩ := h
      cases h
      exact ⟨hzero, hsplit⟩
  · rintro ⟨hzero, rfl⟩
    have hlen : (a ++ 0 :: m).drop (a.length + 1) = m := by simp_all
    simp [installedAddr, hdrop, findIdx?_zero hzero, hlen]

/-! ## the two readings of the index -/

variable {s : State}

theorem mem_installedKeys {start key : Bytes} :
    key ∈ s.installedKeys start ↔ s.installed.has key = true ∧ start <+: key := by
  rw [installedKeys, List.mem_filter, List.mem_map, List.isPrefixOf_iff_prefix, Table.has,
    Option.isSome_iff_exists]
  refine and_congr_left fun _ => ⟨?_, ?_⟩
  · rintro ⟨⟨k, v⟩, hkv, rfl⟩
    exact ⟨v, Table.mem_entries.mp hkv⟩
  · rintro ⟨v, hv⟩
    exact ⟨(key, v), Table.mem_entries.mpr hv, rfl⟩

theorem nodup_installedKeys (start : Bytes) : (s.installedKeys start).Nodup :=
  s.installed.nodup_keys.filter _

theorem has_congr {s' : State} (h : s'.installed = s.installed) (a : Addr) (m : ModelId) :
    s'.hasWorkerInstalledModel a m = s.hasWorkerInstalledModel a m := by
  rw [hasWorkerInstalledModel, h, hasWorkerInstalledModel]

/-- **The models of a worker are those it has**, whatever bytes the address has. -/
theorem mem_getWorkerInstalledModels :
    m ∈ s.getWorkerInstalledModels a ↔ s.hasWorkerInstalledModel a m = true := by
  simp only [getWorkerInstalledModels, List.mem_map, mem_installedKeys]
  constructor
  · rintro ⟨key, ⟨hhas, m', rfl⟩, rfl⟩
    rwa [List.drop_left]
  · intro hhas
    exact ⟨workerInstalledModelKey a m, ⟨hhas, m, rfl⟩, List.drop_left⟩

/-- **The workers of a model are those that have it and whose address has no zero
byte.** -/
theorem mem_getInstalledWorkersByModel :
    a ∈ s.getInstalledWorkersByModel m ↔ 0 ∉ a ∧ s.hasWorkerInstalledModel a m = true := by
  simp only [getInstalledWorkersByModel, List.mem_filterMap, mem_installedKeys]
  constructor
  · rintro ⟨key, ⟨hhas, rest, rfl⟩, haddr⟩
    obtain ⟨hzero, rfl⟩ := installedAddr_eq_some.mp haddr
    refine ⟨hzero, ?_⟩
    rw [hasWorkerInstalledModel, workerInstalledModelKey_eq]
    exact hhas
  · rintro ⟨hzero, hhas⟩
    rw [hasWorkerInstalledModel, workerInstalledModelKey_eq] at hhas
    exact ⟨_, ⟨hhas, _, rfl⟩, installedAddr_eq_some.mpr ⟨hzero, rfl⟩⟩

theorem nodup_getInstalledWorkersByModel (m : ModelId) :
    (s.getInstalledWorkersByModel m).Nodup := by
  rw [getInstalledWorkersByModel, List.Nodup, List.pairwise_filterMap]
  refine (nodup_installedKeys _).imp_of_mem fun {k k'} hk hk' hne a ha a' ha' heq => hne ?_
  obtain ⟨rest, rfl⟩ := (mem_installedKeys.mp hk).2
  obtain ⟨rest', rfl⟩ := (mem_installedKeys.mp hk').2
  have hrest : rest = a ++ 0 :: m := (installedAddr_eq_some.mp ha).2
  have hrest' : rest' = a' ++ 0 :: m := (installedAddr_eq_some.mp ha').2
  rw [hrest, hrest', heq]

/-! ## writes -/

theorem has_setWorkerInstalledModel :
    (s.setWorkerInstalledModel a m).hasWorkerInstalledModel a' m' = true ↔
    workerInstalledModelKey a m = workerInstalledModelKey a' m' ∨
    s.hasWorkerInstalledModel a' m' = true := by
  simp only [setWorkerInstalledModel, hasWorkerInstalledModel, Table.has, Table.get_put]
  split
  · next h => simp [h]
  · next h => simp [h]

end State

/-! ## what is read back after a number of declarations -/

/-- A pair that `DeclareInstalled` writes: the address of an account has 20 bytes. -/
structure Declared where
  addr : Addr
  modelID : ModelId
  addr_length : addr.length = 20

/-- The index after a number of declarations. -/
def State.declareAll (s : State) (declared : List Declared) : State :=
  declared.foldl (fun s d => s.setWorkerInstalledModel d.addr d.modelID) s

/-- The index is read back exactly: both readings agree with `HasWorkerInstalledModel`. -/
structure State.ReadBack (s : State) : Prop where
  workers : ∀ m a, a ∈ s.getInstalledWorkersByModel m ↔
    a.length = 20 ∧ s.hasWorkerInstalledModel a m = true
  workers_once : ∀ m, (s.getInstalledWorkersByModel m).Nodup
  models : ∀ a, a.length = 20 → ∀ m,
    m ∈ s.getWorkerInstalledModels a ↔ s.hasWorkerInstalledModel a m = true

theorem State.has_declareAll {s : State} {declared : List Declared} :
    (s.declareAll declared).hasWorkerInstalledModel a m = true ↔
    (∃ d ∈ declared, workerInstalledModelKey d.addr d.modelID = workerInstalledModelKey a m) ∨
    s.hasWorkerInstalledModel a m = true := by
  induction declared generalizing s with
  | nil => simp [declareAll]
  | cons d declared ih =>
    have hstep : s.declareAll (d :: declared) =
        (s.setWorkerInstalledModel d.addr d.modelID).declareAll declared := rfl
    rw [hstep, ih, has_setWorkerInstalledModel, List.exists_mem_cons_iff, or_assoc, or_left_comm]

theorem State.has_empty (params : Params) (a : Addr) (m : ModelId) :
    (empty params).hasWorkerInstalledModel a m = false := by
  simp [empty, hasWorkerInstalledModel, Table.has]

/-- **The reverse index is read back exactly as long as no address has a zero byte**,
and only then. -/
theorem readBack_iff (params : Params) (declared : List Declared) :
    ((State.empty params).declareAll declared).ReadBack ↔ ∀ d ∈ declared, 0 ∉ d.addr := by
  constructor
  · -- a declared address is read back, and what is read back has no zero byte
    intro h d hd
    have hhas : ((empty params).declareAll declared).hasWorkerInstalledModel
        d.addr d.modelID = true := has_declareAll.mpr (.inl ⟨d, hd, rfl⟩)
    have hmem := (h.workers d.modelID d.addr).mpr ⟨d.addr_length, hhas⟩
    exact (mem_getInstalledWorkersByModel.mp hmem).1
  · intro hzero
    refine ⟨fun m a => ?_, nodup_getInstalledWorkersByModel, fun a _ m =>
      mem_getWorkerInstalledModels⟩
    rw [mem_getInstalledWorkersByModel, and_congr_left_iff, has_declareAll]
    rintro (⟨d, hd, hkey⟩ | hnone)
    · constructor
      · -- both addresses end at the first zero byte of the key
        intro ha
        rw [workerInstalledModelKey_eq, workerInstalledModelKey_eq] at hkey
        have hcut := findIdx?_zero (hzero d hd) d.modelID
        rw [(List.cons.inj hkey).2, findIdx?_zero ha] at hcut
        rw [Option.some.inj hcut, d.addr_length]
      · intro hlen
        obtain ⟨rfl, -⟩ := workerInstalledModelKey_inj (d.addr_length.trans hlen.symm) hkey
        exact hzero d hd
    · rw [has_empty] at hnone
      contradiction

/-- A worker whose address begins with a zero byte declares a model: nobody is found
to have installed it. -/
theorem zero_address_lost : ∃ d : Declared,
      ((State.empty ⟨0, 0, 0⟩).declareAll [d]).hasWorkerInstalledModel d.addr d.modelID = true ∧
      ((State.empty ⟨0, 0, 0⟩).declareAll [d]).getInstalledWorkersByModel d.modelID = [] :=
  ⟨⟨0 :: List.replicate 19 7, [109], rfl⟩, by decide +kernel, by decide +kernel⟩

end

variable {env : Env} {wk : WorkerKeeper} {height : Int} {s s' : State} {model : Model}
  {t t' : Tally}

namespace State

/-- The stored counts of a model. -/
def counts (s : State) (m : ModelId) : Option (UInt32 × UInt32) :=
  (s.getModel m).map fun model => (model.workerCount, model.operatorCount)

theorem counts_setModel (s : State) (model : Model) (m : ModelId) : (s.setModel model).counts m =
      if model.modelId = m then some (model.workerCount, model.operatorCount) else s.counts m := by
  unfold counts getModel setModel
  rw [Table.get_set]
  split <;> rfl

theorem modelId_of_getModel (h : s.getModel m = some model) :
    model.modelId = m := Table.law_of_get (t := s.models) h

theorem isSome_counts : (s.counts m).isSome = (s.getModel m).isSome := by simp [counts]

/-- A change of a model that leaves its counts leaves all counts. -/
theorem counts_setModel_of_get (model' : Model) (h : s.getModel m = some model)
    (hid : model'.modelId = model.modelId) (hworkers : model'.workerCount = model.workerCount)
    (hoperators : model'.operatorCount = model.operatorCount) (m' : ModelId) :
    (s.setModel model').counts m' = s.counts m' := by
  rw [counts_setModel, hid, modelId_of_getModel h]
  split
  · next hm =>
    subst hm
    simp [counts, h, hworkers, hoperators]
  · rfl

end State

/-! ## one refresh -/

theorem checkAndActivateModel_installed (s : State) (m : ModelId) :
    (checkAndActivateModel env height s m).installed = s.installed := by
  unfold checkAndActivateModel
  split
  · rfl
  · split
    · rfl
    · split <;> rfl

theorem counts_checkAndActivateModel (s : State) (m m' : ModelId) :
    (checkAndActivateModel env height s m).counts m' = s.counts m' := by
  unfold checkAndActivateModel
  split
  · rfl
  · next model hmodel =>
    split
    · rfl
    · split
      · refine counts_setModel_of_get _ hmodel ?_ ?_ ?_ m' <;> rfl
      · rfl

/-- The active workers among some. -/
def active (wk : WorkerKeeper) (addrs : List Addr) : List Addr := addrs.filter wk.isWorkerActive

/-- The operators of some workers; an empty id names none. -/
def operators (wk : WorkerKeeper) (addrs : List Addr) : Finset String :=
  (addrs.map wk.getWorkerOperatorId).toFinset.erase ""

theorem operators_cons (a : Addr) (addrs : List Addr) :
    operators wk (a :: addrs) =
      if wk.getWorkerOperatorId a ≠ "" then
        insert (wk.getWorkerOperatorId a) (operators wk addrs)
      else operators wk addrs := by
  unfold operators
  rw [List.map_cons, List.toFinset_cons]
  split
  · next hne => rw [Finset.erase_insert_of_ne hne]
  · grind

/-- The operators seen so far, as a set without repetitions. -/
theorem tallyWorker_eq_ok (h : tallyWorker wk t a = .ok t') :
    t'.workerCount = t.workerCount + UInt32.ofNat (active wk [a]).length ∧
    (t.opSet.Nodup → t'.opSet.Nodup) ∧
    t'.opSet.toFinset = t.opSet.toFinset ∪ operators wk (active wk [a]) := by
  unfold tallyWorker at h
  cases hactive : wk.isWorkerActive a with
  | false =>
    simp only [hactive, Bool.not_false, if_true] at h
    cases h
    have hnone : active wk [a] = [] := by simp [active, hactive]
    rw [hnone]
    exact ⟨by simp, id, by simp [operators]⟩
  | true =>
    simp only [hactive, Bool.not_true, Bool.false_eq_true, if_false] at h
    obtain ⟨x, -, h⟩ := bind_eq_ok.mp h
    cases h
    have hone : active wk [a] = [a] := by simp [active, hactive]
    rw [hone, operators_cons]
    refine ⟨rfl, fun hnodup => ?_, ?_⟩
    · grind
    · dsimp only
      split
      · ext x
        simp [operators, or_comm]
      · simp [operators]

theorem active_cons (a : Addr) (addrs : List Addr) :
    active wk (a :: addrs) = active wk [a] ++ active wk addrs := by
  simp only [active]
  rw [← List.filter_append]
  rfl

theorem operators_append (addrs addrs' : List Addr) :
    operators wk (addrs ++ addrs') = operators wk addrs ∪ operators wk addrs' := by
  unfold operators
  rw [List.map_append, List.toFinset_append, Finset.erase_union_distrib]

/-- The loop of a refresh counts the active workers and their operators. -/
theorem foldlM_tallyWorker {addrs : List Addr} (hnodup : t.opSet.Nodup)
    (h : addrs.foldlM (tallyWorker wk) t = .ok t') :
    t'.workerCount = t.workerCount + UInt32.ofNat (active wk addrs).length ∧
    t'.opSet.Nodup ∧ t'.opSet.toFinset = t.opSet.toFinset ∪ operators wk (active wk addrs) := by
  induction addrs generalizing t with
  | nil =>
    cases h
    exact ⟨by simp [active], hnodup, by simp [active, operators]⟩
  | cons _ _ ih =>
    obtain ⟨t₁, hone, hrest⟩ := bind_eq_ok.mp h
    obtain ⟨hcount, hkeeps, hops⟩ := tallyWorker_eq_ok hone
    obtain ⟨hcount', hnodup', hops'⟩ := ih (hkeeps hnodup) hrest
    rw [active_cons, List.length_append, operators_append]
    refine ⟨?_, hnodup', ?_⟩
    · rw [hcount', hcount, UInt32.ofNat_add, UInt32.add_assoc]
    · rw [hops', hops, Finset.union_assoc]

/-- The counts that a refresh writes. -/
def recount (wk : WorkerKeeper) (s : State) (m : ModelId) : UInt32 × UInt32 :=
  let addrs := active wk (s.getInstalledWorkersByModel m)
  (UInt32.ofNat addrs.length, UInt32.ofNat (operators wk addrs).card)

/-- **A refresh writes the counts of its model**, and no others. -/
theorem refreshModelStats_eq_ok (h : refreshModelStats env wk height s m = .ok s') :
    s'.installed = s.installed ∧
      ∀ m', s'.counts m' = if m' = m then (s.counts m).map fun _ => recount wk s m
        else s.counts m' := by
  unfold refreshModelStats at h
  cases hmodel : s.getModel m with
  | none =>
    simp only [hmodel] at h
    cases h
    refine ⟨rfl, fun m' => ?_⟩
    split
    · next hm => simp [hm, counts, hmodel]
    · rfl
  | some =>
    simp only [hmodel] at h
    obtain ⟨total, -, h⟩ := bind_eq_ok.mp h
    obtain ⟨t, htally, h⟩ := bind_eq_ok.mp h
    obtain ⟨ratio, -, h⟩ := bind_eq_ok.mp h
    cases h
    obtain ⟨hcount, hnodup, hops⟩ := foldlM_tallyWorker List.nodup_nil htally
    have hcard : t.opSet.length =
        (operators wk (active wk (s.getInstalledWorkersByModel m))).card := by
      rw [← List.toFinset_card_of_nodup hnodup, hops]
      simp
    refine ⟨checkAndActivateModel_installed _ _, fun m' => ?_⟩
    rw [counts_checkAndActivateModel, counts_setModel]
    simp only [modelId_of_getModel hmodel, eq_comm]
    split
    · simp [counts, hmodel, recount, hcount, hcard]
    · rfl

/-! ## the callbacks -/

theorem getInstalledWorkersByModel_congr (h : s'.installed = s.installed) (m : ModelId) :
    s'.getInstalledWorkersByModel m = s.getInstalledWorkersByModel m := by
  simp [getInstalledWorkersByModel, installedKeys, h]

theorem recount_congr (h : s'.installed = s.installed) (m : ModelId) :
    recount wk s' m = recount wk s m := by
  unfold recount
  rw [getInstalledWorkersByModel_congr h]

/-- Several refreshes write the counts of their models. -/
theorem foldlM_refreshModelStats {ms : List ModelId}
    (h : ms.foldlM (refreshModelStats env wk height) s = .ok s') : s'.installed = s.installed ∧
      ∀ m', s'.counts m' = if m' ∈ ms then (s.counts m').map fun _ => recount wk s m'
        else s.counts m' := by
  induction ms generalizing s with
  | nil =>
    cases h
    simp
  | cons m _ ih =>
    obtain ⟨s₁, hone, hrest⟩ := bind_eq_ok.mp h
    obtain ⟨hinstalled, hcounts⟩ := refreshModelStats_eq_ok hone
    obtain ⟨hinstalled', hcounts'⟩ := ih hrest
    refine ⟨hinstalled'.trans hinstalled, fun m' => ?_⟩
    rw [hcounts', recount_congr hinstalled, hcounts]
    by_cases hm : m' = m
    · subst hm
      cases s.counts m' <;> simp
    · simp [hm]

theorem onWorkerStateChange_eq_ok (h : onWorkerStateChange env wk height s a = .ok s') :
    s'.installed = s.installed ∧ ∀ m, s'.counts m = if s.hasWorkerInstalledModel a m = true then
        (s.counts m).map fun _ => recount wk s m else s.counts m := by
  obtain ⟨hinstalled, hcounts⟩ := foldlM_refreshModelStats h
  refine ⟨hinstalled, fun m => ?_⟩
  rw [hcounts]
  simp [mem_getWorkerInstalledModels]

theorem foldl_removeWorkerInstalledModel (s : State) (a : Addr) (ms : List ModelId) (key : Bytes) :
    (ms.foldl (fun s m => s.removeWorkerInstalledModel a m) s).installed.has key = true ↔
    s.installed.has key = true ∧ ∀ m ∈ ms, workerInstalledModelKey a m ≠ key := by
  induction ms generalizing s with
  | nil => simp
  | cons m _ ih =>
    rw [List.foldl_cons, ih, List.forall_mem_cons]
    have hone : (s.removeWorkerInstalledModel a m).installed.has key = true ↔
        s.installed.has key = true ∧ workerInstalledModelKey a m ≠ key := by
      simp only [removeWorkerInstalledModel, Table.has, Table.get_erase]
      split
      · next hkey => simp [hkey]
      · next hkey => simp [hkey]
    rw [hone, and_assoc]

theorem models_foldl_remove (s : State) (a : Addr) (ms : List ModelId) :
    (ms.foldl (fun s m => s.removeWorkerInstalledModel a m) s).models = s.models := by
  induction ms generalizing s with
  | nil => rfl
  | cons _ _ ih => exact ih _

/-- **The removal of a worker takes its declarations out of the index**, and writes the
counts of their models. -/
theorem onWorkerRemoved_eq_ok (h : onWorkerRemoved env wk height s a = .ok s') :
    (∀ key, s'.installed.has key = true ↔ s.installed.has key = true ∧
      ∀ m, workerInstalledModelKey a m ≠ key) ∧ ∃ s₁ : State, s₁.installed = s'.installed ∧
      ∀ m, s'.counts m = if s.hasWorkerInstalledModel a m = true then
        (s.counts m).map fun _ => recount wk s₁ m else s.counts m := by
  obtain ⟨hinstalled, hcounts⟩ := foldlM_refreshModelStats h
  refine ⟨fun key => ?_, _, hinstalled.symm, fun m => ?_⟩
  · rw [hinstalled]
    refine (foldl_removeWorkerInstalledModel s a _ key).trans (and_congr_right fun hhas => ?_)
    refine ⟨fun hall m heq => ?_, fun hall m _ => hall m⟩
    refine hall m (mem_getWorkerInstalledModels.mpr ?_) heq
    rw [hasWorkerInstalledModel, heq]
    exact hhas
  · have hsame : ∀ ms : List ModelId,
        (ms.foldl (fun s m => s.removeWorkerInstalledModel a m) s).counts m = s.counts m :=
      fun ms => by
        simp [counts, getModel, models_foldl_remove]
    rw [hcounts, hsame]
    simp [mem_getWorkerInstalledModels]

end FunaiChain.Modelreg
