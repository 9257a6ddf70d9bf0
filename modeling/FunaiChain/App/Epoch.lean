import FunaiChain.Reward.Keeper
import FunaiChain.Settlement.Counters

/-!
# FunaiChain.App.Epoch

The application where the modules meet: the four callbacks that `app.go` gives to the
reward module, and the EndBlock of that module, which calls them at the end of an
epoch and distributes the rewards.

`GetAllVerifierSecondVerifierEpochCounts` merges four stores in a Go map and returns
its values in the order of a `range` loop.  Go leaves that order open, so it is a
parameter here (`MapOrder`).  Only the rows of the verification pool depend on it
(`rewardEndBlock_eq`).
-/

namespace FunaiChain.App

section
open Settlement (Ctx EpochStats)
open Reward (WorkerContribution VerificationContribution ConsensusSignerInfo OnlineWorkerStake)

/-! ## environment and state -/

/-- The application, with what the callbacks need beyond the modules: how
addresses are written. -/
structure Env extends Settlement.Env where
  rewardAccount : Addr
  reward_blocked : blockedAddr rewardAccount = true
  reward_differs : rewardAccount ≠ settlementAccount
  /-- `AccAddress.String`. -/
  addressString : Addr → String
  /-- The string a worker registered with, by the key it is stored under. -/
  workerString : Addr → String
  /-- A written address reads back as itself, if at all. -/
  decode_addressString : ∀ a b, accAddressFromBech32 (addressString a) = some b → b = a
  /-- An address that was read can be written and read again. -/
  encodable : ∀ t a, accAddressFromBech32 t = some a →
    accAddressFromBech32 (addressString a) = some a
  /-- A worker registers with a message in its own name, whose address reads as
  its account. -/
  decode_workerString : ∀ a, signs a = true → accAddressFromBech32 (workerString a) = some a
  /-- The accounts under the addresses of validator keys. -/
  validates : Addr → Bool
  /-- Such an address is the hash of a key: it can be written and read, and is not
  the address of a module. -/
  validator_account : ∀ a, validates a = true →
    accAddressFromBech32 (addressString a) = some a ∧ blockedAddr a = false

/-- The environment of the reward module. -/
def Env.reward (env : Env) : Reward.Env where
  toHost := env.toHost
  rewardAccount := env.rewardAccount
  reward_blocked := env.reward_blocked
  reward_differs := env.reward_differs

structure WorkerSnapshot where
  totalFeeEarned : Int
  totalTasks : Int64
  deriving DecidableEq, Repr

structure WorkerEpochContribution where
  workerAddress : String
  feeAmount : Int
  taskCount : UInt64
  deriving DecidableEq, Repr

/-- The stores of the application that the modules here use.  The snapshots,
the contributions and the signer counts belong to the settlement module, which
keeps them for the callbacks only. -/
structure State where
  settlement : Settlement.State
  workerSnapshots : Store Addr WorkerSnapshot
  epochContributions : Store Addr WorkerEpochContribution
  blockSigners : Store String UInt64
  rewardParams : Reward.Params
  rewardRecords : Reward.RewardRecords
  supply : Int

namespace State

/-- What the reward keeper sees. -/
def reward (s : State) : Reward.State :=
  ⟨s.rewardParams, s.rewardRecords, s.settlement.world.bank, s.supply⟩

/-- What the reward keeper leaves. -/
def setReward (s : State) (r : Reward.State) : State :=
  { s with
    settlement := { s.settlement with world := { s.settlement.world with bank := r.bank } }
    rewardParams := r.params
    rewardRecords := r.records
    supply := r.supply }

/-- The workers that `IsActive` accepts, in the order of the store. -/
def activeWorkers (s : State) : List Worker :=
  (s.settlement.world.workers.entries.map (·.2)).filter fun w =>
    w.status = .active && !w.jailed && !w.tombstoned

end State

/-! ## contributions of an epoch -/

section Callbacks
variable (env : Env)
variable (ctx : Ctx) (s : State)

/-- `GetWorkerSnapshot`. -/
def getWorkerSnapshot (a : Addr) : WorkerSnapshot :=
  (s.workerSnapshots.get a).getD ⟨0, 0⟩

/-- One turn of the loop of `SnapshotAndComputeEpochContributions`. -/
def snapshotWorker (w : Worker) : State :=
  match env.accAddressFromBech32 (env.workerString w.address) with
  | none => s
  | some workerAddr =>
      let snapshot := getWorkerSnapshot s workerAddr
      let epochFee := w.totalFeeEarned.amount - snapshot.totalFeeEarned
      let epochTasks := w.totalTasks.toInt64 - snapshot.totalTasks
      let s :=
        if 0 < epochFee ∨ 0 < epochTasks then
          { s with
            epochContributions := s.epochContributions.put workerAddr
              ⟨env.workerString w.address, epochFee, epochTasks.toUInt64⟩ }
        else s
      { s with
        workerSnapshots := s.workerSnapshots.put workerAddr
          ⟨w.totalFeeEarned.amount, w.totalTasks.toInt64⟩ }

/-- `SnapshotAndComputeEpochContributions`. -/
def snapshotAndComputeEpochContributions (workers : List Worker) : State :=
  workers.foldl (snapshotWorker env) { s with epochContributions := ∅ }

/-- The statistics of the epoch that the callbacks look at, the one before the
epoch of the block. -/
def previousStats : EpochStats :=
  s.settlement.book.getEpochStats (ctx.epoch - 1)

/-- `getContribFn`. -/
def getContrib : State × List WorkerContribution :=
  if ctx.epoch - 1 < 0 ∨ (previousStats ctx s).totalSettled = 0 then (s, [])
  else
    let s := snapshotAndComputeEpochContributions env s s.activeWorkers
    (s, s.epochContributions.entries.map fun r =>
      ⟨r.2.workerAddress, r.2.feeAmount, r.2.taskCount⟩)

/-! ## verification counts of an epoch -/

structure VerifierSecondVerifierEpochCounts where
  address : String
  verificationCount : UInt64
  auditCount : UInt64
  verificationFee : Int
  auditFee : Int
  deriving DecidableEq, Repr

namespace VerifierSecondVerifierEpochCounts

def zero (address : String) : VerifierSecondVerifierEpochCounts := ⟨address, 0, 0, 0, 0⟩

/-- `TotalFee`. -/
def totalFee (c : VerifierSecondVerifierEpochCounts) : Int := c.verificationFee + c.auditFee

end VerifierSecondVerifierEpochCounts

abbrev Merged := Table String VerifierSecondVerifierEpochCounts fun k c => c.address = k

/-- Change the row of an address, which `ensure` makes first. -/
def Merged.update (m : Merged) (address : String)
    (f : VerifierSecondVerifierEpochCounts → VerifierSecondVerifierEpochCounts)
    (hf : ∀ c, (f c).address = c.address) : Merged :=
  match h : m.get address with
  | none => m.set address (f (.zero address)) (hf _)
  | some c => m.set address (f c) ((hf c).trans (m.lawful address c h))

/-- Go through one of the four stores. -/
def Merged.load {V : Type} (m : Merged) (store : Store Addr V)
    (f : V → VerifierSecondVerifierEpochCounts → VerifierSecondVerifierEpochCounts)
    (hf : ∀ v c, (f v c).address = c.address) : Merged :=
  store.entries.foldl (fun m r => m.update (env.addressString r.1) (f r.2) (hf r.2)) m

/-- The map of `GetAllVerifierSecondVerifierEpochCounts`. -/
def mergedCounts (b : Settlement.Book) : Merged :=
  let m : Merged := ∅
  let m := m.load env b.verifierEpochCount (fun n c => { c with verificationCount := n })
    fun _ _ => rfl
  let m := m.load env b.secondVerifierEpochCount (fun n c => { c with auditCount := n })
    fun _ _ => rfl
  let m := m.load env b.verifierEpochFee (fun x c => { c with verificationFee := x })
    fun _ _ => rfl
  m.load env b.secondVerifierEpochFee (fun x c => { c with auditFee := x }) fun _ _ => rfl

/-- An order in which Go goes through a map: each of its values once. -/
structure MapOrder where
  visit : List VerifierSecondVerifierEpochCounts → List VerifierSecondVerifierEpochCounts
  perm : ∀ rows, (visit rows).Perm rows

variable (ctx : Ctx) (order : MapOrder) (s : State)

/-- `GetAllVerifierSecondVerifierEpochCounts`. -/
def getAllVerifierSecondVerifierEpochCounts (b : Settlement.Book) :
    List VerifierSecondVerifierEpochCounts :=
  order.visit ((mergedCounts env b).entries.map (·.2))

/-- `ClearVerifierSecondVerifierEpochCounts`. -/
def clearVerifierSecondVerifierEpochCounts (b : Settlement.Book) : Settlement.Book :=
  { b with
    verifierEpochCount := ∅
    secondVerifierEpochCount := ∅
    verifierEpochFee := ∅
    secondVerifierEpochFee := ∅ }

def verificationContribution (c : VerifierSecondVerifierEpochCounts) : VerificationContribution :=
  ⟨c.address, c.verificationCount, c.auditCount, some c.totalFee⟩

/-- `getVerifContribFn`. -/
def getVerifContrib : State × List VerificationContribution :=
  let stats := previousStats ctx s
  if ctx.epoch - 1 < 0 ∨ stats.verificationCount = 0 ∧ stats.secondVerificationTotal = 0 then
    (s, [])
  else
    let counts := getAllVerifierSecondVerifierEpochCounts env order s.settlement.book
    ({ s with
        settlement := { s.settlement with
          book := clearVerifierSecondVerifierEpochCounts s.settlement.book } },
      counts.map verificationContribution)

/-! ## signers and stakes -/

/-- `getConsensusSignersFn`: the counts in the order of their addresses, and the
store cleared. -/
def getConsensusSigners : State × List ConsensusSignerInfo :=
  ({ s with blockSigners := ∅ }, s.blockSigners.entries.map fun r => ⟨r.1, r.2⟩)

/-- `getOnlineWorkersFn`. -/
def getOnlineWorkers : List OnlineWorkerStake :=
  s.activeWorkers.map fun w => ⟨env.workerString w.address, w.stake.amount⟩

/-! ## the end of an epoch -/

/-- Does an epoch end with this block?  Validated parameters have epochs of at
least one block. -/
def epochEnds : Bool :=
  ctx.height.tmod s.rewardParams.epochBlocks = 0

/-- The EndBlock of the reward module. -/
def rewardEndBlock : Except Reward.Err State :=
  if !epochEnds ctx s then .ok s
  else do
    let (s, contributions) := getContrib env ctx s
    let (s, verifContribs) := getVerifContrib env ctx order s
    let (s, consensusSigners) := getConsensusSigners s
    let onlineWorkers := getOnlineWorkers env s
    let r ← Reward.distributeRewards env.reward s.reward ctx.height contributions verifContribs
      consensusSigners onlineWorkers
    return s.setReward r

end Callbacks

end

open Settlement (Ctx Counted)
variable {env : Env} {ctx : Ctx} {s : State} {P : Addr → Prop} {b : Settlement.Book}

/-! ## the rows of the map -/

/-- The values of the map, in the order of its keys. -/
def verifierRows (env : Env) (b : Settlement.Book) : List VerifierSecondVerifierEpochCounts :=
  (mergedCounts env b).entries.map (·.2)

/-- Every key of a map is the string of an address with a property. -/
def Merged.Keyed (m : Merged) (env : Env) (P : Addr → Prop) : Prop :=
  ∀ k c, m.get k = some c → ∃ a, P a ∧ k = env.addressString a

theorem Merged.get_update (m : Merged) (address : String)
    (f : VerifierSecondVerifierEpochCounts → VerifierSecondVerifierEpochCounts)
    (hf : ∀ c, (f c).address = c.address) {k : String} (hk : address ≠ k) :
    (m.update address f hf).get k = m.get k := by
  unfold update
  split
  · exact Table.get_set_of_ne m _ _ hk
  · exact Table.get_set_of_ne m _ _ hk

theorem Merged.Keyed.load {m : Merged} {V : Type} (hm : m.Keyed env P) {store : Store Addr V}
    (hstore : ∀ a v, store.get a = some v → P a)
    (f : V → VerifierSecondVerifierEpochCounts → VerifierSecondVerifierEpochCounts)
    (hf : ∀ v c, (f v c).address = c.address) : (m.load env store f hf).Keyed env P := by
  unfold Merged.load
  have hentries : ∀ r ∈ store.entries, P r.1 := by
    rintro ⟨a, v⟩ hr
    exact hstore a v (Table.mem_entries.mp hr)
  generalize store.entries = entries at hentries ⊢
  induction entries generalizing m with
  | nil => exact hm
  | cons r _ ih =>
    refine ih ?_ fun r hr => hentries r (.tail _ hr)
    intro k c hc
    by_cases hk : env.addressString r.1 = k
    · exact ⟨r.1, hentries r (.head _), hk.symm⟩
    · rw [m.get_update _ _ _ hk] at hc
      exact hm k c hc

theorem mergedCounts_keyed (h : Counted P b) : (mergedCounts env b).Keyed env P := by
  have hempty : (∅ : Merged).Keyed env P := fun k c hc => by
    contradiction
  exact (((hempty.load h.verifierCount _ _).load h.secondVerifierCount _ _).load
    h.verifierFee _ _).load h.secondVerifierFee _ _

/-- Every row is the row of a counted address. -/
theorem address_of_mem_verifierRows (h : Counted P b) {c : VerifierSecondVerifierEpochCounts}
    (hc : c ∈ verifierRows env b) : ∃ a, P a ∧ c.address = env.addressString a := by
  obtain ⟨⟨k, c⟩, hentry, rfl⟩ := List.mem_map.mp hc
  have hget := Table.mem_entries.mp hentry
  rw [Table.law_of_get hget]
  exact mergedCounts_keyed h k c hget

theorem verifierRows_strings (b : Settlement.Book) :
    (verifierRows env b).map (·.address) = (mergedCounts env b).entries.map Prod.fst := by
  rw [verifierRows, List.map_map]
  refine List.map_congr_left ?_
  rintro ⟨k, c⟩ hentry
  exact (mergedCounts env b).lawful k c (Table.mem_entries.mp hentry)

/-! ## the state that the callbacks leave -/

theorem snapshotWorker_frame (env : Env) (s : State) (w : Worker) :
    (snapshotWorker env s w).settlement = s.settlement ∧
    (snapshotWorker env s w).blockSigners = s.blockSigners ∧
    (snapshotWorker env s w).reward = s.reward := by
  unfold snapshotWorker
  split
  · exact ⟨rfl, rfl, rfl⟩
  · dsimp only
    split <;> exact ⟨rfl, rfl, rfl⟩

theorem snapshots_frame (s : State) (workers : List Worker) :
    (workers.foldl (snapshotWorker env) s).settlement = s.settlement ∧
    (workers.foldl (snapshotWorker env) s).blockSigners = s.blockSigners ∧
    (workers.foldl (snapshotWorker env) s).reward = s.reward := by
  induction workers generalizing s with
  | nil => exact ⟨rfl, rfl, rfl⟩
  | cons w _ ih =>
    obtain ⟨hsettlement, hsigners, hreward⟩ := ih (snapshotWorker env s w)
    obtain ⟨hsettlement', hsigners', hreward'⟩ := snapshotWorker_frame env s w
    exact ⟨hsettlement.trans hsettlement', hsigners.trans hsigners', hreward.trans hreward'⟩

variable (env ctx s)

/-- `getContribFn` writes its own stores only. -/
theorem getContrib_frame : (getContrib env ctx s).1.settlement = s.settlement ∧
    (getContrib env ctx s).1.blockSigners = s.blockSigners ∧
    (getContrib env ctx s).1.reward = s.reward := by
  unfold getContrib
  split
  · exact ⟨rfl, rfl, rfl⟩
  · exact snapshots_frame _ _

/-- Does `getVerifContribFn` return rows? -/
def verificationsCounted : Bool :=
  0 ≤ ctx.epoch - 1 &&
    ((previousStats ctx s).verificationCount ≠ 0 ||
      (previousStats ctx s).secondVerificationTotal ≠ 0)

/-- The rows of the verification pool. -/
def verificationRows (order : MapOrder) (s : State) : List Reward.VerificationContribution :=
  if verificationsCounted ctx s then
    (order.visit (verifierRows env s.settlement.book)).map verificationContribution
  else []

/-- The state that the callbacks leave. -/
def afterCallbacks : State :=
  let s' := (getContrib env ctx s).1
  { s' with
    settlement := { s.settlement with
      book := if verificationsCounted ctx s then
          clearVerifierSecondVerifierEpochCounts s.settlement.book
        else s.settlement.book }
    blockSigners := ∅ }

variable {env ctx s}

theorem getVerifContrib_eq (order : MapOrder) (s : State) : getVerifContrib env ctx order s =
      ({ s with settlement := { s.settlement with
          book := if verificationsCounted ctx s then
              clearVerifierSecondVerifierEpochCounts s.settlement.book
            else s.settlement.book } },
        verificationRows env ctx order s) := by
  unfold getVerifContrib verificationRows verificationsCounted
  by_cases h : ctx.epoch - 1 < 0 ∨ (previousStats ctx s).verificationCount = 0 ∧
      (previousStats ctx s).secondVerificationTotal = 0
  · have hno : ¬ (0 ≤ ctx.epoch - 1 ∧ ((previousStats ctx s).verificationCount ≠ 0 ∨
        (previousStats ctx s).secondVerificationTotal ≠ 0)) := by
      rintro ⟨hepoch, hcount⟩
      obtain h | ⟨hv, hsv⟩ := h
      · omega
      · exact hcount.elim (fun hne => hne hv) (fun hne => hne hsv)
    simp only [h, if_true, Bool.and_eq_true, Bool.or_eq_true, decide_eq_true_eq, hno, if_false]
  · have hyes : 0 ≤ ctx.epoch - 1 ∧ ((previousStats ctx s).verificationCount ≠ 0 ∨
        (previousStats ctx s).secondVerificationTotal ≠ 0) := by
      rw [not_or, not_and_or] at h
      exact ⟨by omega, h.2⟩
    simp only [h, if_false, Bool.and_eq_true, Bool.or_eq_true, decide_eq_true_eq, hyes]
    rfl

theorem reward_afterCallbacks (env : Env) (ctx : Ctx) (s : State) :
    (afterCallbacks env ctx s).reward = s.reward := by
  obtain ⟨-, -, hreward⟩ := getContrib_frame env ctx s
  simp only [State.reward, Reward.State.mk.injEq] at hreward
  obtain ⟨hparams, hrecords, -, hsupply⟩ := hreward
  simp [State.reward, afterCallbacks, hparams, hrecords, hsupply]

/-- **The reward EndBlock**: a distribution in which only the rows of the
verification pool depend on the order. -/
theorem rewardEndBlock_eq (order : MapOrder) (hends : epochEnds ctx s = true) :
    rewardEndBlock env ctx order s = (do
      let r ← Reward.distributeRewards env.reward s.reward ctx.height (getContrib env ctx s).2
        (verificationRows env ctx order s) (getConsensusSigners s).2 (getOnlineWorkers env s)
      return (afterCallbacks env ctx s).setReward r) := by
  obtain ⟨hsettlement, hsigners, hreward⟩ := getContrib_frame env ctx s
  have hcounted :
      verificationsCounted ctx (getContrib env ctx s).1 = verificationsCounted ctx s := by
    unfold verificationsCounted previousStats
    rw [hsettlement]
  have hrows : verificationRows env ctx order (getContrib env ctx s).1 =
      verificationRows env ctx order s := by
    simp [verificationRows, hcounted, hsettlement]
  unfold rewardEndBlock
  simp only [hends, Bool.not_true, Bool.false_eq_true, if_false, getVerifContrib_eq,
    getConsensusSigners, hrows, hcounted, hsettlement, hsigners]
  change (do
    let r ← Reward.distributeRewards env.reward (afterCallbacks env ctx s).reward ctx.height
      (getContrib env ctx s).2 (verificationRows env ctx order s) (getConsensusSigners s).2
      (getOnlineWorkers env s)
    return (afterCallbacks env ctx s).setReward r) = _
  rw [reward_afterCallbacks]
  rfl

end FunaiChain.App
