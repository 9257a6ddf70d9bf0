import FunaiChain.Lib.Trace
import FunaiChain.Registry.Totals

/-!
# FunaiChain.App.Contributions

The contributions that the reward module gets at the end of an epoch: the totals of each
active worker less a snapshot of them, which settlement keeps and renews.

A node is the chain of the worker module together with the stores of the callbacks.  Its
history, which no function of the source reads, says what was credited, handed over and
snapshotted, so that "since the last snapshot" can be said (`creditsSince`).

The totals belong to the worker module, which starts them again at zero when an address
registers again, while the snapshot of the address stays.  The difference is then not what
was credited: it can be negative, and as an unsigned count it is huge
(`reregistration_wraps`).  Without such registrations a contribution is exactly what was
credited since the last snapshot (`contributions_true`).
-/

namespace FunaiChain.App.Contributions

open Settlement (Ctx)
open Reward (WorkerContribution)

variable {a : Addr} {ctx : Ctx} {w : Worker} {n' : Node} {c : WorkerEpochContribution}
  {book : Settlement.Book} {ws : List Worker} {ev : Registry.Event}

/-! ## the loop over the workers -/

section Loop

variable {env : Env} {s : State}

/-- A worker's totals. -/
def snapshotOf (w : Worker) : WorkerSnapshot := ⟨w.totalFeeEarned.amount, w.totalTasks.toInt64⟩

/-- What a worker contributes after a snapshot, if anything. -/
def earned (env : Env) (snapshot : WorkerSnapshot) (w : Worker) : Option WorkerEpochContribution :=
  let epochFee := w.totalFeeEarned.amount - snapshot.totalFeeEarned
  let epochTasks := w.totalTasks.toInt64 - snapshot.totalTasks
  if 0 < epochFee ∨ 0 < epochTasks then
    some ⟨env.workerString w.address, epochFee, epochTasks.toUInt64⟩
  else none

theorem earned_eq_some {snapshot : WorkerSnapshot} (h : earned env snapshot w = some c) :
    c = ⟨env.workerString w.address, w.totalFeeEarned.amount - snapshot.totalFeeEarned,
      (w.totalTasks.toInt64 - snapshot.totalTasks).toUInt64⟩ := by
  unfold earned at h
  dsimp only at h
  split at h
  · exact (Option.some.inj h).symm
  · contradiction

/-- One turn of the loop, for a worker whose string reads as its address. -/
theorem snapshotWorker_stores (hsigns : env.signs w.address = true) (a : Addr) :
    (snapshotWorker env s w).workerSnapshots.get a =
        (if w.address = a then some (snapshotOf w) else s.workerSnapshots.get a) ∧
      (snapshotWorker env s w).epochContributions.get a =
        if w.address = a then
          (earned env (getWorkerSnapshot s a) w).or (s.epochContributions.get a)
        else s.epochContributions.get a := by
  unfold snapshotWorker
  rw [env.decode_workerString _ hsigns]
  dsimp only
  constructor
  · rw [Table.get_put]
    split
    · rfl
    · split <;> rfl
  · by_cases ha : w.address = a
    · subst ha
      rw [if_pos rfl, earned]
      split
      · grind
      · rfl
    · grind

/-- The loop leaves the rows of others. -/
theorem snapshots_others (hsigns : ∀ w ∈ ws, env.signs w.address = true)
    (ha : a ∉ ws.map Worker.address) :
    (ws.foldl (snapshotWorker env) s).workerSnapshots.get a = s.workerSnapshots.get a ∧
      (ws.foldl (snapshotWorker env) s).epochContributions.get a = s.epochContributions.get a := by
  induction ws generalizing s with
  | nil => exact ⟨rfl, rfl⟩
  | cons w _ ih =>
    rw [List.map_cons, List.mem_cons, not_or] at ha
    obtain ⟨hsnapshots, hcontributions⟩ := snapshotWorker_stores (s := s) (hsigns w (.head _)) a
    rw [if_neg fun he => ha.1 he.symm] at hsnapshots hcontributions
    obtain ⟨hrest, hrest'⟩ := ih (s := snapshotWorker env s w)
      (fun w hw => hsigns w (.tail _ hw)) ha.2
    exact ⟨hrest.trans hsnapshots, hrest'.trans hcontributions⟩

/-- The whole loop: each of the workers has its snapshot and its contribution. -/
theorem snapshots_stores (hsigns : ∀ w ∈ ws, env.signs w.address = true)
    (hnodup : (ws.map Worker.address).Nodup) (hw : w ∈ ws) :
    (ws.foldl (snapshotWorker env) s).workerSnapshots.get w.address = some (snapshotOf w) ∧
      (ws.foldl (snapshotWorker env) s).epochContributions.get w.address =
        (earned env (getWorkerSnapshot s w.address) w).or (s.epochContributions.get w.address) := by
  -- the workers before and after leave its rows
  obtain ⟨before, after, rfl⟩ := List.append_of_mem hw
  rw [List.forall_mem_append, List.forall_mem_cons] at hsigns
  rw [List.map_append, List.map_cons, List.nodup_middle, List.nodup_cons, List.mem_append,
    not_or] at hnodup
  rw [List.foldl_append, List.foldl_cons]
  obtain ⟨hbefore, hbefore'⟩ := snapshots_others (s := s) hsigns.1 hnodup.1.1
  obtain ⟨hturn, hturn'⟩ := snapshotWorker_stores
    (s := before.foldl (snapshotWorker env) s) hsigns.2.1 w.address
  obtain ⟨hafter, hafter'⟩ := snapshots_others (s := snapshotWorker env _ w) hsigns.2.2 hnodup.1.2
  rw [if_pos rfl] at hturn hturn'
  rw [getWorkerSnapshot, hbefore, hbefore'] at hturn'
  exact ⟨hafter.trans hturn, hafter'.trans hturn'⟩

/-- The rows that the callback returns. -/
def handOver (c : WorkerEpochContribution) : WorkerContribution :=
  ⟨c.workerAddress, c.feeAmount, c.taskCount⟩

/-- Does the callback look at the workers in this block? -/
def looks (ctx : Ctx) (s : State) : Bool :=
  !(ctx.epoch - 1 < 0 || (previousStats ctx s).totalSettled == 0)

theorem getContrib_of_looks (h : looks ctx s = true) : getContrib env ctx s =
      let s' := snapshotAndComputeEpochContributions env s s.activeWorkers
      (s', s'.epochContributions.entries.map fun r => handOver r.2) := by
  have hno : ¬(ctx.epoch - 1 < 0 ∨ (previousStats ctx s).totalSettled = 0) := by
    simpa [looks] using h
  rw [getContrib, if_neg hno]
  rfl

theorem getContrib_of_not_looks (h : looks ctx s = false) : getContrib env ctx s = (s, []) := by
  have hyes : ctx.epoch - 1 < 0 ∨ (previousStats ctx s).totalSettled = 0 := by
    simpa only [looks, Bool.not_eq_false', Bool.or_eq_true, decide_eq_true_eq, beq_iff_eq] using h
  rw [getContrib, if_pos hyes]

end Loop

/-! ## nodes -/

/-- One application: its modules agree on the accounts. -/
structure Wiring where
  registry : Registry.Env
  app : App.Env
  host : app.toHost = registry.toHost

/-- What settlement and the callbacks did. -/
inductive Record
  | credit (a : Addr) (fee : Int)
  | contribution (c : WorkerContribution)
  | snapshot (a : Addr)

/-- The worker module, the stores of the callbacks, and what has happened, the newest
first. -/
structure Node where
  chain : Registry.Chain
  app : State
  history : List Record

inductive Event
  | worker (ev : Registry.Event)
  /-- The end of an epoch, with the statistics that settlement has kept. -/
  | boundary (ctx : Ctx) (book : Settlement.Book)

/-- The state that the callbacks see. -/
def Node.view (n : Node) (book : Settlement.Book) : State :=
  { n.app with settlement := { n.app.settlement with world := n.chain.state.world, book := book } }

/-- What an event of the worker module credits. -/
def recordsOf (c : Registry.Chain) (ev : Registry.Event) : List Record :=
  match c.credit ev with
  | some (a, fee) => [.credit a fee]
  | none => []

section Step

variable (wiring : Wiring)

/-- The contributions that the reward module gets. -/
def Node.contributions (n : Node) (ctx : Ctx) (book : Settlement.Book) : List WorkerContribution :=
  (getContrib wiring.app ctx (n.view book)).2

/-- The workers whose snapshots are renewed. -/
def Node.snapshotted (n : Node) (ctx : Ctx) (book : Settlement.Book) : List Addr :=
  if looks ctx (n.view book) then (n.view book).activeWorkers.map Worker.address else []

/-- One event. -/
def Node.step (n : Node) : Event → Exec Node
  | .worker ev => do
      let chain ← n.chain.exec wiring.registry ev
      return { n with chain := chain, history := recordsOf n.chain ev ++ n.history }
  | .boundary ctx book =>
      .ok { n with
        app := (getContrib wiring.app ctx (n.view book)).1
        history := (n.snapshotted ctx book).map .snapshot ++
          ((n.contributions wiring ctx book).map .contribution ++ n.history) }

end Step

/-! ## histories -/

/-- The fees credited to a worker, the newest first. -/
def credits (a : Addr) : List Record → List Int
  | [] => []
  | .credit b fee :: h => if b = a then fee :: credits a h else credits a h
  | _ :: h => credits a h

/-- The fees credited to a worker since its last snapshot. -/
def creditsSince (a : Addr) : List Record → List Int
  | [] => []
  | .credit b fee :: h => if b = a then fee :: creditsSince a h else creditsSince a h
  | .snapshot b :: h => if b = a then [] else creditsSince a h
  | .contribution _ :: h => creditsSince a h

/-- The contributions of a worker, by the string in them. -/
def handed (name : String) : List Record → List WorkerContribution
  | [] => []
  | .contribution c :: h => if c.workerAddress = name then c :: handed name h else handed name h
  | _ :: h => handed name h

section History

variable {h : List Record} {name : String}

theorem creditsSince_sublist (a : Addr) (h : List Record) :
    (creditsSince a h).Sublist (credits a h) := by
  induction h with
  | nil => exact .refl _
  | cons r _ ih =>
    cases r with
    | credit _ fee =>
      rw [creditsSince, credits]
      split
      · exact ih.cons_cons fee
      · exact ih
    | contribution => exact ih
    | snapshot =>
      simp only [creditsSince, credits]
      split
      · exact List.nil_sublist _
      · exact ih

variable (as : List Addr) (cs : List WorkerContribution)

theorem credits_boundary :
    credits a (as.map .snapshot ++ (cs.map .contribution ++ h)) = credits a h := by
  induction as with
  | nil =>
    induction cs with
    | nil => rfl
    | cons _ _ ih => exact ih
  | cons _ _ ih => exact ih

theorem creditsSince_boundary : creditsSince a (as.map .snapshot ++ (cs.map .contribution ++ h)) =
      if a ∈ as then [] else creditsSince a h := by
  induction as with
  | nil =>
    induction cs with
    | nil => rfl
    | cons _ _ ih => exact ih
  | cons b _ ih =>
    rw [List.map_cons, List.cons_append, creditsSince, ih]
    by_cases hb : b = a
    · simp [hb]
    · grind

theorem handed_boundary : handed name (as.map .snapshot ++ (cs.map .contribution ++ h)) =
      cs.filter (fun c => c.workerAddress = name) ++ handed name h := by
  induction as with
  | nil =>
    induction cs with
    | nil => rfl
    | cons c _ ih =>
      simp only [List.map_nil, List.nil_append, List.map_cons, List.cons_append, handed] at ih ⊢
      by_cases hc : c.workerAddress = name
      · simp [hc, ih]
      · simp [hc, ih]
  | cons _ _ ih => exact ih

variable (c : Registry.Chain) (ev : Registry.Event)

theorem credits_recordsOf (a : Addr) (h : List Record) :
    credits a (recordsOf c ev ++ h) = c.credits ev a ++ credits a h := by
  unfold recordsOf Registry.Chain.credits
  cases c.credit ev with
  | none => rfl
  | some =>
    dsimp only [List.singleton_append, credits]
    split <;> rfl

theorem creditsSince_recordsOf (a : Addr) (h : List Record) :
    creditsSince a (recordsOf c ev ++ h) = c.credits ev a ++ creditsSince a h := by
  unfold recordsOf Registry.Chain.credits
  cases c.credit ev with
  | none => rfl
  | some =>
    dsimp only [List.singleton_append, creditsSince]
    split <;> rfl

theorem handed_recordsOf (name : String) (h : List Record) :
    handed name (recordsOf c ev ++ h) = handed name h := by
  unfold recordsOf
  cases c.credit ev <;> rfl

end History

/-! ## the end of an epoch -/

section Boundary

variable {wiring : Wiring} {n : Node}

theorem get_of_mem_active {s : State} (h : w ∈ s.activeWorkers) :
    s.settlement.world.workers.get w.address = some w :=
  World.get_of_mem (List.mem_filter.mp h).1

theorem nodup_active (s : State) : (s.activeWorkers.map Worker.address).Nodup :=
  (Table.nodup_values s.settlement.world.workers.lawful).sublist (List.filter_sublist.map _)

/-- The registered workers hold keys. -/
def Signed (wiring : Wiring) (n : Node) : Prop :=
  ∀ a w, n.chain.state.world.workers.get a = some w → wiring.app.signs a = true

/-- The rows that the callback collects. -/
def Node.rows (wiring : Wiring) (n : Node) (book : Settlement.Book) :
    Store Addr WorkerEpochContribution :=
  (snapshotAndComputeEpochContributions wiring.app (n.view book)
    (n.view book).activeWorkers).epochContributions

section

variable (hsigned : Signed wiring n)

include hsigned

theorem signs_of_mem_active :
    ∀ w ∈ (n.view book).activeWorkers, wiring.app.signs w.address = true :=
  fun _ hw => hsigned _ _ (get_of_mem_active hw)

theorem get_rows (hw : w ∈ (n.view book).activeWorkers) : (n.rows wiring book).get w.address =
      earned wiring.app (getWorkerSnapshot n.app w.address) w := by
  refine (snapshots_stores (signs_of_mem_active hsigned) (nodup_active _) hw).2.trans ?_
  rw [Table.get_empty, Option.or_none]
  rfl

theorem get_rows_of_inactive (ha : a ∉ (n.view book).activeWorkers.map Worker.address) :
    (n.rows wiring book).get a = none := by
  refine (snapshots_others (signs_of_mem_active hsigned) ha).2.trans ?_
  exact Table.get_empty a

/-- The snapshots afterwards: renewed for the active workers. -/
theorem snapshot_of_active (hw : n.chain.state.world.workers.get a = some w)
    (ha : a ∈ (n.view book).activeWorkers.map Worker.address) :
    getWorkerSnapshot (snapshotAndComputeEpochContributions wiring.app (n.view book)
      (n.view book).activeWorkers) a = snapshotOf w := by
  obtain ⟨w', hw', rfl⟩ := List.mem_map.mp ha
  cases hw.symm.trans (get_of_mem_active hw')
  unfold getWorkerSnapshot snapshotAndComputeEpochContributions
  rw [(snapshots_stores (signs_of_mem_active hsigned) (nodup_active _) hw').1]
  rfl

theorem snapshot_of_inactive (ha : a ∉ (n.view book).activeWorkers.map Worker.address) :
    getWorkerSnapshot (snapshotAndComputeEpochContributions wiring.app (n.view book)
      (n.view book).activeWorkers) a = getWorkerSnapshot n.app a := by
  unfold getWorkerSnapshot snapshotAndComputeEpochContributions
  rw [(snapshots_others (signs_of_mem_active hsigned) ha).1]
  rfl

/-- A row belongs to an active worker. -/
theorem active_of_get_rows (h : (n.rows wiring book).get a = some c) :
    ∃ w ∈ (n.view book).activeWorkers, w.address = a ∧
      earned wiring.app (getWorkerSnapshot n.app a) w = some c := by
  by_cases ha : a ∈ (n.view book).activeWorkers.map Worker.address
  · obtain ⟨w, hw, rfl⟩ := List.mem_map.mp ha
    exact ⟨w, hw, rfl, (get_rows hsigned hw).symm.trans h⟩
  · rw [get_rows_of_inactive hsigned ha] at h
    contradiction

end

theorem workerString_inj {env : Env} {b : Addr} (ha : env.signs a = true) (hb : env.signs b = true)
    (h : env.workerString a = env.workerString b) : a = b := by
  have hdecode := env.decode_workerString a ha
  rw [h, env.decode_workerString b hb] at hdecode
  exact (Option.some.inj hdecode).symm

/-- Of the rows handed over, one at most is a worker's. -/
theorem filter_contributions (hsigned : Signed wiring n) (hlooks : looks ctx (n.view book) = true)
    (ha : wiring.app.signs a = true) : (n.contributions wiring ctx book).filter
        (fun c => c.workerAddress = wiring.app.workerString a) =
      (((n.rows wiring book).get a).map handOver).toList := by
  have hmine : ∀ r ∈ (n.rows wiring book).entries,
      (decide ((handOver r.2).workerAddress = wiring.app.workerString a)) = decide (r.1 = a) := by
    rintro ⟨b, c⟩ hr
    obtain ⟨w, hw, rfl, hearned⟩ := active_of_get_rows hsigned (Table.mem_entries.mp hr)
    have hstring : (handOver c).workerAddress = wiring.app.workerString w.address := by
      rw [earned_eq_some hearned]
      rfl
    rw [decide_eq_decide, hstring]
    exact ⟨workerString_inj (signs_of_mem_active hsigned w hw) ha, fun he => congrArg _ he⟩
  rw [Node.contributions, getContrib_of_looks hlooks]
  change List.filter _ ((n.rows wiring book).entries.map fun r => handOver r.2) = _
  rw [List.filter_map, List.filter_congr (p := _ ∘ _) hmine, Table.filter_entries_key]
  cases (n.rows wiring book).get a <;> rfl

end Boundary

/-! ## true deltas -/

/-- The totals of the workers are their snapshots and what was credited since; nothing was
handed over that was not credited. -/
structure Balanced (wiring : Wiring) (n : Node) : Prop where
  signed : Signed wiring n
  fee : ∀ a w, n.chain.state.world.workers.get a = some w → w.totalFeeEarned.amount =
      (getWorkerSnapshot n.app a).totalFeeEarned + (creditsSince a n.history).sum
  tasks : ∀ a w, n.chain.state.world.workers.get a = some w →
    w.totalTasks = (getWorkerSnapshot n.app a).totalTasks.toUInt64 +
      UInt64.ofNat (creditsSince a n.history).length
  unknown : ∀ a, credits a n.history = [] → getWorkerSnapshot n.app a = ⟨0, 0⟩
  nonneg : ∀ a, ∀ fee ∈ credits a n.history, 0 ≤ fee
  handedTasks : ∀ a, wiring.app.signs a = true →
    ((handed (wiring.app.workerString a) n.history).map fun c => c.taskCount.toNat).sum +
      (creditsSince a n.history).length ≤ (credits a n.history).length
  handedFees : ∀ a, wiring.app.signs a = true →
    ((handed (wiring.app.workerString a) n.history).map fun c => c.feeAmount).sum +
      (creditsSince a n.history).sum ≤ (credits a n.history).sum

section Deltas

variable {wiring : Wiring} {n : Node}

theorem sum_creditsSince_nonneg (hn : Balanced wiring n) (a : Addr) :
    0 ≤ (creditsSince a n.history).sum :=
  List.sum_nonneg fun fee hfee => hn.nonneg a fee ((creditsSince_sublist a n.history).subset hfee)

/-- What a worker of a balanced node contributes. -/
theorem Balanced.earned_eq (hn : Balanced wiring n)
    (hw : n.chain.state.world.workers.get a = some w)
    (h : earned wiring.app (getWorkerSnapshot n.app a) w = some c) :
    c = ⟨wiring.app.workerString a, (creditsSince a n.history).sum,
      UInt64.ofNat (creditsSince a n.history).length⟩ := by
  have hfee : w.totalFeeEarned.amount - (getWorkerSnapshot n.app a).totalFeeEarned =
      (creditsSince a n.history).sum := by
    rw [hn.fee a w hw]
    omega
  have htasks : (w.totalTasks.toInt64 - (getWorkerSnapshot n.app a).totalTasks).toUInt64 =
      UInt64.ofNat (creditsSince a n.history).length := by
    rw [Int64.toUInt64_sub, UInt64.toUInt64_toInt64, hn.tasks a w hw, UInt64.add_comm,
      UInt64.add_sub_cancel]
  rw [earned_eq_some h, World.address_of_get hw, hfee, htasks]

/-! ### what the events keep -/

/-- The events under which contributions stay true: no fee that is credited is negative,
and nobody registers to whom a task was ever credited. -/
def faithful (wiring : Wiring) (n : Node) : Event → Bool
  | .worker (.call (.updateWorkerStats _ fee)) => 0 ≤ fee.amount
  | .worker (.tx (.registerWorker msg)) =>
      (wiring.registry.accAddressFromBech32 msg.creator).all fun a => (credits a n.history).isEmpty
  | _ => true

theorem nonneg_of_faithful (h : faithful wiring n (.worker ev) = true) {fee : Int}
    (hfee : fee ∈ n.chain.credits ev a) : 0 ≤ fee := by
  obtain hnone | ⟨_, rfl, hone⟩ := n.chain.credits_cases ev a
  · grind
  · rw [hone] at hfee
    rw [List.mem_singleton.mp hfee]
    simpa [faithful] using h

/-- Whoever may register has no snapshot yet. -/
theorem Balanced.unknown_of_faithful (hn : Balanced wiring n) {msg : Registry.MsgRegisterWorker}
    (h : faithful wiring n (.worker (.tx (.registerWorker msg))) = true)
    (hcreator : wiring.registry.accAddressFromBech32 msg.creator = some a) :
    getWorkerSnapshot n.app a = ⟨0, 0⟩ ∧ creditsSince a n.history = [] := by
  rw [faithful, hcreator] at h
  have hnone : credits a n.history = [] := by simpa using h
  exact ⟨hn.unknown a hnone, List.sublist_nil.mp (hnone ▸ creditsSince_sublist a n.history)⟩

theorem signs_eq (wiring : Wiring) (a : Addr) : wiring.app.signs a = wiring.registry.signs a :=
  congrArg (fun host : Host => host.signs a) wiring.host

theorem Balanced.worker (hn : Balanced wiring n) (hok : faithful wiring n (.worker ev) = true)
    (h : n.step wiring (.worker ev) = .ok n') : Balanced wiring n' := by
  obtain ⟨chain, hexec, h⟩ := bind_eq_ok.mp h
  cases h
  refine ⟨fun a w' hw' => ?_, fun a w' hw' => ?_, fun a w' hw' => ?_, fun a hnone => ?_,
    fun a fee hfee => ?_, fun a ha => ?_, fun a ha => ?_⟩
  · obtain ⟨w, hw, -⟩ | ⟨-, -, -, hsigns, -⟩ := Registry.Chain.exec_totals hexec hw'
    · exact hn.signed a w hw
    · rwa [signs_eq]
  · dsimp only
    rw [creditsSince_recordsOf, List.sum_append]
    obtain ⟨w, hw, -, hfee⟩ | ⟨-, -, hfee, -, msg, rfl, hcreator⟩ :=
      Registry.Chain.exec_totals hexec hw'
    · rw [hfee, hn.fee a w hw]
      omega
    · obtain ⟨hunknown, hsince⟩ := hn.unknown_of_faithful hok hcreator
      rw [hfee, hunknown, hsince]
      rfl
  · rw [creditsSince_recordsOf, List.length_append, UInt64.ofNat_add]
    obtain ⟨w, hw, htasks, -⟩ | ⟨-, htasks, -, -, msg, rfl, hcreator⟩ :=
      Registry.Chain.exec_totals hexec hw'
    · rw [htasks, hn.tasks a w hw, UInt64.add_assoc, UInt64.add_comm (UInt64.ofNat _)]
    · obtain ⟨hunknown, hsince⟩ := hn.unknown_of_faithful hok hcreator
      rw [htasks, hunknown, hsince]
      rfl
  · rw [credits_recordsOf] at hnone
    exact hn.unknown a (List.append_eq_nil_iff.mp hnone).2
  · rw [credits_recordsOf] at hfee
    obtain hfee | hfee := List.mem_append.mp hfee
    · exact nonneg_of_faithful hok hfee
    · exact hn.nonneg a fee hfee
  · have hle := hn.handedTasks a ha
    rw [credits_recordsOf, creditsSince_recordsOf, handed_recordsOf, List.length_append,
      List.length_append]
    omega
  · have hle := hn.handedFees a ha
    rw [credits_recordsOf, creditsSince_recordsOf, handed_recordsOf, List.sum_append,
      List.sum_append]
    omega

/-- What a worker of a balanced node is handed over, with what is still to be: one row at
most, which is what was credited since the last snapshot. -/
theorem Balanced.filter_contributions_le (hn : Balanced wiring n)
    (hlooks : looks ctx (n.view book) = true) (ha : wiring.app.signs a = true) :
    let mine := (n.contributions wiring ctx book).filter
      (fun c => c.workerAddress = wiring.app.workerString a)
    let rest := if a ∈ (n.view book).activeWorkers.map Worker.address then []
      else creditsSince a n.history
    (mine.map fun c => c.taskCount.toNat).sum + rest.length ≤ (creditsSince a n.history).length ∧
      (mine.map fun c => c.feeAmount).sum + rest.sum ≤ (creditsSince a n.history).sum := by
  intro mine rest
  have hmine : mine = _ := filter_contributions hn.signed hlooks ha
  by_cases hactive : a ∈ (n.view book).activeWorkers.map Worker.address
  case neg => simp [hmine, rest, get_rows_of_inactive hn.signed hactive, hactive]
  have hrest : rest = [] := if_pos hactive
  obtain ⟨w, hw, rfl⟩ := List.mem_map.mp hactive
  rw [hmine, hrest, get_rows hn.signed hw]
  cases hearned : earned wiring.app (getWorkerSnapshot n.app w.address) w with
  | none => exact ⟨Nat.zero_le _, sum_creditsSince_nonneg hn w.address⟩
  | some =>
    rw [hn.earned_eq (get_of_mem_active hw) hearned]
    have hmod : (UInt64.ofNat (creditsSince w.address n.history).length).toNat ≤
        (creditsSince w.address n.history).length := by
      exact Nat.mod_le _ _
    simpa [handOver] using hmod

/-- The end of an epoch without settled tasks changes nothing. -/
theorem Balanced.boundary_idle (hn : Balanced wiring n) (hlooks : looks ctx (n.view book) = false)
    (h : n.step wiring (.boundary ctx book) = .ok n') : Balanced wiring n' := by
  cases h
  have hcontributions : n.contributions wiring ctx book = [] := by
    rw [Node.contributions, getContrib_of_not_looks hlooks]
  have hsnapshotted : n.snapshotted ctx book = [] := by rw [Node.snapshotted, hlooks]; rfl
  rw [hcontributions, hsnapshotted, getContrib_of_not_looks hlooks]
  exact ⟨hn.signed, hn.fee, hn.tasks, hn.unknown, hn.nonneg, hn.handedTasks, hn.handedFees⟩

theorem Balanced.boundary (hn : Balanced wiring n)
    (h : n.step wiring (.boundary ctx book) = .ok n') : Balanced wiring n' := by
  cases hlooks : looks ctx (n.view book) with
  | false => exact hn.boundary_idle hlooks h
  | true =>
  cases h
  have hsnapshotted : n.snapshotted ctx book = (n.view book).activeWorkers.map Worker.address := by
    rw [Node.snapshotted, if_pos hlooks]
  rw [hsnapshotted, getContrib_of_looks hlooks]
  have hhanded := fun a ha => hn.filter_contributions_le (a := a) hlooks ha
  refine ⟨hn.signed, fun a w hw => ?_, fun a w hw => ?_, fun a hnone => ?_,
    fun a fee hfee => ?_, fun a ha => ?_, fun a ha => ?_⟩
  · dsimp only
    rw [creditsSince_boundary]
    by_cases hactive : a ∈ (n.view book).activeWorkers.map Worker.address
    · rw [if_pos hactive, snapshot_of_active hn.signed hw hactive]
      exact (Int.add_zero _).symm
    · rw [if_neg hactive, snapshot_of_inactive hn.signed hactive]
      exact hn.fee a w hw
  · dsimp only
    rw [creditsSince_boundary]
    by_cases hactive : a ∈ (n.view book).activeWorkers.map Worker.address
    · rw [if_pos hactive, snapshot_of_active hn.signed hw hactive]
      exact (UInt64.add_zero _).symm
    · rw [if_neg hactive, snapshot_of_inactive hn.signed hactive]
      exact hn.tasks a w hw
  · dsimp only at hnone ⊢
    rw [credits_boundary] at hnone
    by_cases hactive : a ∈ (n.view book).activeWorkers.map Worker.address
    · obtain ⟨w, hw, rfl⟩ := List.mem_map.mp hactive
      have hsince := List.sublist_nil.mp (hnone ▸ creditsSince_sublist w.address n.history)
      have hfee := hn.fee _ w (get_of_mem_active hw)
      have htasks := hn.tasks _ w (get_of_mem_active hw)
      rw [hn.unknown _ hnone, hsince] at hfee htasks
      rw [snapshot_of_active hn.signed (get_of_mem_active hw) hactive, snapshotOf, hfee, htasks]
      rfl
    · rw [snapshot_of_inactive hn.signed hactive]
      exact hn.unknown a hnone
  · dsimp only at hfee
    rw [credits_boundary] at hfee
    exact hn.nonneg a fee hfee
  · have hle := hn.handedTasks a ha
    have hmine := (hhanded a ha).1
    rw [credits_boundary, creditsSince_boundary, handed_boundary, List.map_append, List.sum_append]
    omega
  · have hle := hn.handedFees a ha
    have hmine := (hhanded a ha).2
    rw [credits_boundary, creditsSince_boundary, handed_boundary, List.map_append, List.sum_append]
    omega

theorem Balanced.step {ev : Event} (hn : Balanced wiring n)
    (hok : faithful wiring n ev = true) (h : n.step wiring ev = .ok n') : Balanced wiring n' := by
  cases ev with
  | worker => exact hn.worker hok h
  | boundary => exact hn.boundary h

/-- Nobody has been credited anything yet. -/
structure Fresh (wiring : Wiring) (n : Node) : Prop where
  signed : Signed wiring n
  totals : ∀ a w, n.chain.state.world.workers.get a = some w →
    w.totalTasks = 0 ∧ w.totalFeeEarned.amount = 0
  snapshots : n.app.workerSnapshots = ∅
  history : n.history = []

theorem Fresh.balanced (h : Fresh wiring n) : Balanced wiring n := by
  have hsnapshot : ∀ a, getWorkerSnapshot n.app a = ⟨0, 0⟩ := by
    intro a
    rw [getWorkerSnapshot, h.snapshots, Table.get_empty]
    rfl
  refine ⟨h.signed, fun a w hw => ?_, fun a w hw => ?_, fun a _ => hsnapshot a,
    fun a fee hfee => ?_, fun a _ => ?_, fun a _ => ?_⟩
  · rw [(h.totals a w hw).2, hsnapshot, h.history]
    rfl
  · rw [(h.totals a w hw).1, hsnapshot, h.history]
    rfl
  · rw [h.history] at hfee
    contradiction
  · rw [h.history]
    exact Nat.le_refl 0
  · rw [h.history]
    exact Int.le_refl 0

theorem length_credits_step {ev : Event} (a : Addr) (h : n.step wiring ev = .ok n') :
    (credits a n'.history).length ≤ (credits a n.history).length + 1 := by
  cases ev with
  | worker ev =>
    obtain ⟨chain, -, h⟩ := bind_eq_ok.mp h
    cases h
    rw [credits_recordsOf, List.length_append]
    obtain hnone | ⟨_, -, hone⟩ := n.chain.credits_cases ev a
    · simp [hnone]
    · simp [hone, Nat.add_comm]
  | boundary =>
    cases h
    rw [credits_boundary]
    exact Nat.le_succ _

end Deltas

/-- **Contributions are true deltas**, in a run in which nobody registers again to whom a
task was credited, and no fee is negative: a contribution is what settlement credited
since the worker's last snapshot, and all contributions of a worker together are at most
what it was ever credited. -/
theorem contributions_true {wiring : Wiring} {n₀ n : Node} {evs : List Event}
    (hstart : Fresh wiring n₀)
    (run : Trace (Node.step wiring) (fun n ev => faithful wiring n ev = true) n₀ evs n)
    (hlength : evs.length < 2 ^ 64) : (∀ ctx book, ∀ c ∈ n.contributions wiring ctx book,
      ∃ a w, n.chain.state.world.workers.get a = some w ∧
        c.workerAddress = wiring.app.workerString a ∧
        c.taskCount.toNat = (creditsSince a n.history).length ∧
        c.feeAmount = (creditsSince a n.history).sum ∧ 0 ≤ c.feeAmount) ∧
    ∀ a, wiring.app.signs a = true →
      ((handed (wiring.app.workerString a) n.history).map fun c => c.taskCount.toNat).sum ≤
          (credits a n.history).length ∧
        ((handed (wiring.app.workerString a) n.history).map fun c => c.feeAmount).sum ≤
          (credits a n.history).sum := by
  have hn : Balanced wiring n :=
    run.invariant (P := Balanced wiring) (fun _ _ _ hn hok hstep => hn.step hok hstep)
      hstart.balanced
  constructor
  · intro ctx book c hc
    cases hlooks : looks ctx (n.view book) with
    | false =>
      rw [Node.contributions, getContrib_of_not_looks hlooks] at hc
      contradiction
    | true =>
      rw [Node.contributions, getContrib_of_looks hlooks] at hc
      obtain ⟨⟨a, c⟩, hrow, rfl⟩ := List.mem_map.mp hc
      obtain ⟨w, hw, rfl, hearned⟩ := active_of_get_rows hn.signed (Table.mem_entries.mp hrow)
      have hget := get_of_mem_active hw
      rw [hn.earned_eq hget hearned]
      -- fewer credits than events, so the count does not wrap
      have hbound : (creditsSince w.address n.history).length < 2 ^ 64 := by
        have hcredits := run.measure_le (m := fun n => (credits w.address n.history).length)
          fun _ _ _ hstep => length_credits_step w.address hstep
        have hsince := (creditsSince_sublist w.address n.history).length_le
        have hzero : (credits w.address n₀.history).length = 0 := by rw [hstart.history]; rfl
        omega
      exact ⟨w.address, w, hget, rfl, UInt64.toNat_ofNat_of_lt' hbound, rfl,
        sum_creditsSince_nonneg hn w.address⟩
  · intro a ha
    have htasks := hn.handedTasks a ha
    have hfees := hn.handedFees a ha
    have hnonneg := sum_creditsSince_nonneg hn a
    constructor
    · omega
    · omega

/-! ## a devnet -/

/-- The environment of the worker module's devnet, with the reward module. -/
def devRegistry : Registry.Env :=
  { Registry.devEnv with
    blockedAddr := devModule
    settlement_blocked := by decide
    worker_blocked := by decide }

def devApp : App.Env where
  toEnv := { Settlement.devEnv with toHost := devRegistry.toHost }
  rewardAccount := devRewardAccount
  reward_blocked := by decide
  reward_differs := by decide
  addressString := devString
  workerString := devString
  decode_addressString := fun _ _ h => devAddr_decodes h
  encodable := fun _ _ h => devString_decodes (devAddr_ne_nil h)
  decode_workerString := fun a h => devString_decodes fun hnil => by
    rw [hnil] at h
    contradiction
  validates := fun a => a != [] && !devModule a
  validator_account := fun a h => by
    obtain ⟨hne, hmodule⟩ := Bool.and_eq_true_iff.mp h
    have hfree : devModule a = false := by simpa using hmodule
    exact ⟨devString_decodes (by simpa using hne), hfree⟩

def devWiring : Wiring := ⟨devRegistry, devApp, rfl⟩

def devNode : Node := ⟨Registry.devChain 1, (devChain 1 []).state, []⟩

theorem devNode_fresh : Fresh devWiring devNode where
  signed := fun a w h => by
    cases (Registry.devChain_workers 1 a).symm.trans h
  totals := fun a w h => by
    cases (Registry.devChain_workers 1 a).symm.trans h
  snapshots := rfl
  history := rfl

/-- The statistics of an epoch in which tasks were settled. -/
def devBook (epoch : Int) : Settlement.Book :=
  Settlement.Book.empty.setEpochStats { Settlement.defaultEpochStats epoch with totalSettled := 1 }

def devCredit (fee : Int) : Event :=
  .worker (.call (.updateWorkerStats (Settlement.devAddr "alice@worker.example")
    ⟨Settlement.defaultDenom, fee⟩))

def devBoundary (epoch : Int) : Event := .boundary ⟨100 * epoch, [], []⟩ (devBook (epoch - 1))

/-- A worker registers and is credited tasks, before and after the end of an epoch. -/
def devEarns : List Event :=
  [.worker (Registry.devRegister "alice@worker.example" 1 [[65]]), devCredit 10, devCredit 5,
    devBoundary 1, devCredit 7]

/-- After the boundary only the last credit counts. -/
theorem devEarns_true :
    ∃ n, Trace (Node.step devWiring) (fun n ev => faithful devWiring n ev = true) devNode
        devEarns n ∧ n.contributions devWiring ⟨200, [], []⟩ (devBook 1) =
        [⟨devString (Settlement.devAddr "alice@worker.example"), 7, 1⟩] ∧
      (∀ ctx book, ∀ c ∈ n.contributions devWiring ctx book,
        ∃ a w, n.chain.state.world.workers.get a = some w ∧
          c.workerAddress = devWiring.app.workerString a ∧
          c.taskCount.toNat = (creditsSince a n.history).length ∧
          c.feeAmount = (creditsSince a n.history).sum ∧ 0 ≤ c.feeAmount) ∧
      ∀ a, devWiring.app.signs a = true →
        ((handed (devWiring.app.workerString a) n.history).map fun c => c.taskCount.toNat).sum ≤
            (credits a n.history).length ∧
          ((handed (devWiring.app.workerString a) n.history).map fun c => c.feeAmount).sum ≤
            (credits a n.history).sum := by
  refine exists_and_of (by decide +kernel) fun n hrun _ => ?_
  exact contributions_true devNode_fresh hrun (by decide)

/-- A worker is credited five tasks, is counted, leaves, registers again and is credited
one task. -/
def devReturns : List Event :=
  .worker (Registry.devRegister "alice@worker.example" 1 [[65]]) ::
    List.replicate 5 (devCredit 10) ++
    [devBoundary 1, .worker (.tx (.exitWorker ⟨"alice@worker.example"⟩))] ++
    List.replicate 3 (.worker (.nextBlock [])) ++
    [.worker (Registry.devRegister "alice@worker.example" 1 [[65]]), devCredit 100]

/-- **A count wraps**: one task was credited since the last snapshot, with a fee of 100, and
the reward module is told of minus four tasks, as an unsigned number, and a fee of 50. -/
theorem reregistration_wraps :
    ∃ n, Trace (Node.step devWiring) (fun _ _ => True) devNode devReturns n ∧
      creditsSince (Settlement.devAddr "alice@worker.example") n.history = [100] ∧
      n.contributions devWiring ⟨200, [], []⟩ (devBook 1) =
        [⟨devString (Settlement.devAddr "alice@worker.example"), 50, 18446744073709551612⟩] := by
  decide +kernel

end FunaiChain.App.Contributions
