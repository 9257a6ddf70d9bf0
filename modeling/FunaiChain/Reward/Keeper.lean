import Mathlib.Data.UInt
import FunaiChain.Lib.Dec
import FunaiChain.Sdk

/-!
# FunaiChain.Reward.Keeper

The keeper of `x/reward`: how much an epoch emits (`calculateEpochReward`),
how it is split over the pools, and the four loops that mint it
(`distributeRewards`).

The loops share one shape (`distribute`): every row but the last takes a
rounded share, the last takes what is left, and a row with a positive amount
is minted to and recorded.  The numbers are unbounded there; where `math.Int`
and `LegacyDec` panic for want of bits is said apart (`checkRewards`).  Log
lines and events are left out.
-/

namespace FunaiChain.Reward

open Std

/-! ## parameters -/

/-- The registered errors of the module that its keeper returns. -/
inductive Err
  | invalidParams (text : String)
  | invalidAddress (text : String)
  /-- An error of the bank keeper. -/
  | bank
  deriving DecidableEq, Repr

def bondDenom : String := "ufai"

structure Params where
  baseBlockReward : Int
  halvingPeriod : Int
  feeWeight : Dec
  countWeight : Dec
  epochBlocks : Int
  totalSupply : Int
  inferenceWeight : Dec
  verificationWeight : Dec
  multiVerificationFundWeight : Dec
  deriving DecidableEq, Repr

namespace Params

/-- `LegacyNewDecWithPrec(n, 2)`. -/
def percent (n : Int) : Dec := ⟨n * 10 ^ 16⟩

/-- `DefaultParams`. -/
def default : Params where
  baseBlockReward := 4000000000
  halvingPeriod := 26250000
  feeWeight := percent 85
  countWeight := percent 15
  epochBlocks := 100
  totalSupply := 210000000000000000
  inferenceWeight := percent 85
  verificationWeight := percent 12
  multiVerificationFundWeight := percent 3

/-- A weight is between 0 and 1. -/
def checkWeight (w : Dec) (text : String) : Except Err Unit :=
  ensure (!(w.isNegative || w.gt Dec.one)) (.invalidParams text)

/-- `Validate`. -/
def validate (p : Params) : Except Err Unit := do
  ensure (0 ≤ p.baseBlockReward) (.invalidParams "base block reward must be non-negative")
  ensure (0 < p.halvingPeriod) (.invalidParams "halving period must be positive")
  checkWeight p.feeWeight "fee weight must be between 0 and 1"
  checkWeight p.countWeight "count weight must be between 0 and 1"
  ensure (0 < p.epochBlocks) (.invalidParams "epoch blocks must be positive")
  checkWeight p.inferenceWeight "inference weight must be between 0 and 1"
  checkWeight p.verificationWeight "verification weight must be between 0 and 1"
  checkWeight p.multiVerificationFundWeight "audit fund weight must be between 0 and 1"
  let poolSum := (p.inferenceWeight.add p.verificationWeight).add p.multiVerificationFundWeight
  ensure (poolSum == Dec.one)
    (.invalidParams ("inference + verification + multi_verification_fund weights must sum to 1, " ++
      "got " ++ poolSum.toString))
  let weightSum := p.feeWeight.add p.countWeight
  ensure (weightSum == Dec.one)
    (.invalidParams ("fee + count weights must sum to 1, got " ++ weightSum.toString))

/-- **What validated parameters satisfy.** -/
structure Valid (p : Params) : Prop where
  base : 0 ≤ p.baseBlockReward
  halving : 0 < p.halvingPeriod
  blocks : 0 < p.epochBlocks
  fee : 0 ≤ p.feeWeight.raw
  count : 0 ≤ p.countWeight.raw
  inference : 0 ≤ p.inferenceWeight.raw
  verification : 0 ≤ p.verificationWeight.raw
  fund : 0 ≤ p.multiVerificationFundWeight.raw
  pools : p.inferenceWeight.raw + p.verificationWeight.raw + p.multiVerificationFundWeight.raw =
    Dec.unit
  weights : p.feeWeight.raw + p.countWeight.raw = Dec.unit

theorem nonneg_of_checkWeight {w : Dec} {text : String} {u : Unit}
    (h : checkWeight w text = .ok u) : 0 ≤ w.raw := by
  have hchecked := ensure_eq_ok.mp h
  simp only [Dec.isNegative, Dec.gt, Bool.not_or, Bool.and_eq_true, Bool.not_eq_true',
    decide_eq_false_iff_not, Int.not_lt] at hchecked
  exact hchecked.1

theorem valid_of_validate {p : Params} (h : p.validate = .ok ()) : p.Valid := by
  obtain ⟨_, hbase, h⟩ := bind_eq_ok.mp h
  obtain ⟨_, hhalving, h⟩ := bind_eq_ok.mp h
  obtain ⟨_, hfee, h⟩ := bind_eq_ok.mp h
  obtain ⟨_, hcount, h⟩ := bind_eq_ok.mp h
  obtain ⟨_, hblocks, h⟩ := bind_eq_ok.mp h
  obtain ⟨_, hinference, h⟩ := bind_eq_ok.mp h
  obtain ⟨_, hverification, h⟩ := bind_eq_ok.mp h
  obtain ⟨_, hfund, h⟩ := bind_eq_ok.mp h
  obtain ⟨_, hpools, hweights⟩ := bind_eq_ok.mp h
  have hpools := congrArg Dec.raw (beq_iff_eq.mp (ensure_eq_ok.mp hpools))
  have hweights := congrArg Dec.raw (beq_iff_eq.mp (ensure_eq_ok.mp hweights))
  exact ⟨of_decide_eq_true (ensure_eq_ok.mp hbase), of_decide_eq_true (ensure_eq_ok.mp hhalving),
    of_decide_eq_true (ensure_eq_ok.mp hblocks), nonneg_of_checkWeight hfee,
    nonneg_of_checkWeight hcount, nonneg_of_checkWeight hinference,
    nonneg_of_checkWeight hverification, nonneg_of_checkWeight hfund, hpools, hweights⟩

theorem default_valid : default.validate = .ok () := by decide +kernel

end Params

/-! ## the state -/

structure RewardRecord where
  epoch : Int
  workerAddress : String
  amount : Coin
  deriving DecidableEq, Repr

/-- The key of a record, `KeyRewardRecord`. -/
structure RecordKey where
  epoch : Int
  workerAddress : String
  deriving DecidableEq, Repr

namespace RecordKey

instance : Ord RecordKey := ⟨compareLex (compareOn epoch) (compareOn workerAddress)⟩

instance : TransOrd RecordKey :=
  inferInstanceAs (TransCmp (compareLex (compareOn epoch) (compareOn workerAddress)))

instance : LawfulEqOrd RecordKey where
  compare_self := fun {_} => ReflCmp.compare_self
  eq_of_compare := by
    intro a b h
    have h : compareLex (compareOn epoch) (compareOn workerAddress) a b = .eq := h
    simp only [compareLex, compareOn, Ordering.then_eq_eq, Std.compare_eq_iff_eq] at h
    obtain ⟨hepoch, haddress⟩ := h
    cases a
    cases b
    simp_all

end RecordKey

abbrev RewardRecords := Table RecordKey RewardRecord fun k r =>
  r.epoch = k.epoch ∧ r.workerAddress = k.workerAddress

/-- What the keeper reads and writes: its store, and the bank with the supply
of the bond denom. -/
structure State where
  params : Params
  records : RewardRecords
  bank : Bank
  supply : Int

/-- The application, with the account of this module. -/
structure Env extends Host where
  rewardAccount : Addr
  /-- `blockedAddresses` lists this module account too. -/
  reward_blocked : blockedAddr rewardAccount = true
  reward_differs : rewardAccount ≠ settlementAccount

namespace State

/-- `SetRewardRecord`: one record under an epoch and an address string. -/
def setRewardRecord (s : State) (record : RewardRecord) : State :=
  { s with records := s.records.set ⟨record.epoch, record.workerAddress⟩ record ⟨rfl, rfl⟩ }

variable (env : Env)

/-- `MintCoins` into the module account. -/
def mintCoins (s : State) (amount : Int) : State :=
  { s with
    bank := s.bank.credit env.rewardAccount ⟨bondDenom, amount⟩
    supply := s.supply + amount }

end State

/-! ## emission -/

/-- `CalculateBlockReward`. -/
def calculateBlockReward (params : Params) (height : Int) : Int :=
  let halvings := height.tdiv params.halvingPeriod
  if 64 ≤ halvings then 0
  else (fun reward : Int => reward.tdiv 2)^[halvings.toNat] params.baseBlockReward

/-- The heights from one to another. -/
def heights (first last : Int) : List Int :=
  (List.range (last - first + 1).toNat).map fun i : Nat => first + (i : Int)

/-- The first height that an epoch pays for. -/
def epochStartHeight (params : Params) (epochEndHeight : Int) : Int :=
  let first := epochEndHeight - params.epochBlocks + 1
  if first < 1 then 1 else first

/-- `CalculateEpochReward`. -/
def calculateEpochReward (params : Params) (epochEndHeight : Int) : Int :=
  ((heights (epochStartHeight params epochEndHeight) epochEndHeight).map
    (calculateBlockReward params)).sum

/-! ## who is rewarded -/

structure WorkerContribution where
  workerAddress : String
  feeAmount : Int
  taskCount : UInt64
  deriving DecidableEq, Repr

/-- The fee may be the nil `math.Int`. -/
structure VerificationContribution where
  workerAddress : String
  verificationCount : UInt64
  auditCount : UInt64
  feeAmount : Option Int
  deriving DecidableEq, Repr

structure ConsensusSignerInfo where
  validatorAddress : String
  blocksSigned : UInt64
  deriving DecidableEq, Repr

structure OnlineWorkerStake where
  workerAddress : String
  stake : Int
  deriving DecidableEq, Repr

/-! ## distribution -/

section Distribution
variable (env : Env)
variable (s : State) (epoch epochReward : Int) (contributions : List WorkerContribution)
  (params : Params)

/-- `mintAndSend`. -/
def mintAndSend (workerAddress : String) (amount : Int) : Except Err State :=
  let s := s.mintCoins env amount
  match env.accAddressFromBech32 workerAddress with
  | none => .error (.invalidAddress ("invalid worker address: " ++ workerAddress))
  | some workerAddr =>
      match env.sendCoinsFromModuleToAccount s.bank env.rewardAccount workerAddr
          ⟨bondDenom, amount⟩ with
      | none => .error .bank
      | some bank => .ok { s with bank := bank }

/-- Mint to a row and record it. -/
def reward (s : State) (workerAddress : String) (alloc : Int) : Except Err State := do
  let s ← mintAndSend env s workerAddress alloc
  return s.setRewardRecord ⟨epoch, workerAddress, ⟨bondDenom, alloc⟩⟩

/-- The amount of a row: the last one takes what is left. -/
def allocOf {ρ : Type} (pool : Int) (share : ρ → Int) (totalDistributed : Int) (row : ρ)
    (rows : List ρ) : Int :=
  if rows.isEmpty then pool - totalDistributed else share row

/-- The loop over the rows of a pool. -/
def distribute {ρ : Type} (epoch pool : Int) (addressOf : ρ → String) (share : ρ → Int) :
    Int → List ρ → State → Except Err State
  | _, [], s => .ok s
  | totalDistributed, row :: rows, s =>
      let alloc := allocOf pool share totalDistributed row rows
      if 0 < alloc then do
        let s ← reward env epoch s (addressOf row) alloc
        distribute epoch pool addressOf share (totalDistributed + alloc) rows s
      else distribute epoch pool addressOf share totalDistributed rows s

/-- `LegacyNewDec(int64(n))`. -/
def decOfUInt64 (n : UInt64) : Dec := Dec.ofInt n.toInt64.toInt

/-- The sum of `uint64` counts, with their overflow. -/
def totalOf {ρ : Type} (count : ρ → UInt64) (rows : List ρ) : UInt64 :=
  (rows.map count).sum

/-- A share of a pool by a weight. -/
def shareOf (weight : Dec) (pool : Int) : Int := (weight.mulInt pool).truncateInt

/-- The weight of a contribution, by fee and by count. -/
def contributionWeight (totalFees : Int) (totalCount : UInt64) (c : WorkerContribution) : Dec :=
  let byFee := if 0 < totalFees then
      params.feeWeight.mul ((Dec.ofInt c.feeAmount).quo (Dec.ofInt totalFees))
    else Dec.zero
  let byCount := if 0 < totalCount then
      params.countWeight.mul ((decOfUInt64 c.taskCount).quo (decOfUInt64 totalCount))
    else Dec.zero
  byFee.add byCount

/-- `distributeByContribution`. -/
def distributeByContribution : Except Err State :=
  let totalFees := (contributions.map (·.feeAmount)).sum
  let totalCount := totalOf (·.taskCount) contributions
  distribute env epoch epochReward (·.workerAddress)
    (fun c => shareOf (contributionWeight params totalFees totalCount c) epochReward)
    0 contributions s

variable (totalFee : Int) (totalCount : UInt64) (c : VerificationContribution)

/-- The count of a verifier. -/
def VerificationContribution.count : UInt64 :=
  c.verificationCount + c.auditCount

/-- The fee of a verifier; a nil fee adds nothing. -/
def VerificationContribution.fee : Int := c.feeAmount.getD 0

/-- The weight of a verifier: by fee and by count, or by count alone when there
are no fees. -/
def verificationWeight : Dec :=
  let countRatio := (decOfUInt64 c.count).quo (decOfUInt64 totalCount)
  if totalFee = 0 then countRatio
  else
    let byFee := if 0 < totalFee ∧ 0 < c.fee then
        params.feeWeight.mul ((Dec.ofInt c.fee).quo (Dec.ofInt totalFee))
      else Dec.zero
    byFee.add (params.countWeight.mul countRatio)

/-- `distributeByVerification`. -/
def distributeByVerification (totalReward : Int) (contribs : List VerificationContribution)
    (params : Params) : Except Err State :=
  let totalCount := totalOf (·.count) contribs
  let totalFee := (contribs.map (·.fee)).sum
  if totalCount = 0 then .ok s
  else
    distribute env epoch totalReward (·.workerAddress)
      (fun c => shareOf (verificationWeight params totalFee totalCount c) totalReward)
      0 contribs s

/-- `distributeByConsensusSigning`. -/
def distributeByConsensusSigning (signers : List ConsensusSignerInfo) : Except Err State :=
  let totalSigned := totalOf (·.blocksSigned) signers
  if totalSigned = 0 then .ok s
  else
    distribute env epoch epochReward (·.validatorAddress)
      (fun signer => shareOf ((decOfUInt64 signer.blocksSigned).quo (decOfUInt64 totalSigned))
        epochReward)
      0 signers s

/-- `distributeByStake`. -/
def distributeByStake (onlineWorkers : List OnlineWorkerStake) : Except Err State :=
  let totalStake := (onlineWorkers.map (·.stake)).sum
  if totalStake = 0 then .ok s
  else
    distribute env epoch epochReward (·.workerAddress)
      (fun w => shareOf ((Dec.ofInt w.stake).quo (Dec.ofInt totalStake)) epochReward)
      0 onlineWorkers s

/-- The pools of an epoch: inference and verification; the rest goes to the
multi-verification fund. -/
def inferenceReward (epochReward : Int) : Int :=
  shareOf params.inferenceWeight epochReward

def verifierReward (epochReward : Int) : Int :=
  shareOf params.verificationWeight epochReward

def fundReward (epochReward : Int) : Int :=
  epochReward - inferenceReward params epochReward - verifierReward params epochReward

/-- Mint the slice of the multi-verification fund into the settlement
account. -/
def mintFund (amount : Int) : Except Err State :=
  if 0 < amount then
    let s := s.mintCoins env amount
    match env.sendCoins s.bank env.rewardAccount env.settlementAccount ⟨bondDenom, amount⟩ with
    | none => .error .bank
    | some bank => .ok { s with bank := bank }
  else .ok s

/-- The epoch that a height ends. -/
def epochOf (height : Int) : Int := (height - 1).tdiv params.epochBlocks + 1

/-- `DistributeRewards`. -/
def distributeRewards (height : Int) (contributions : List WorkerContribution)
    (verificationContribs : List VerificationContribution)
    (consensusSigners : List ConsensusSignerInfo) (onlineWorkers : List OnlineWorkerStake) :
    Except Err State :=
  let params := s.params
  let epoch := epochOf params height
  let epochReward := calculateEpochReward params height
  if epochReward = 0 then .ok s
  else if !contributions.isEmpty then do
    let s ← distributeByContribution env s epoch (inferenceReward params epochReward)
      contributions params
    let s ← if 0 < verifierReward params epochReward ∧ !verificationContribs.isEmpty then
        distributeByVerification env s epoch (verifierReward params epochReward)
          verificationContribs params
      else .ok s
    mintFund env s (fundReward params epochReward)
  else if !consensusSigners.isEmpty then
    distributeByConsensusSigning env s epoch epochReward consensusSigners
  else if !onlineWorkers.isEmpty then
    distributeByStake env s epoch epochReward onlineWorkers
  else .ok s

end Distribution

/-! ## arithmetic that can panic

`math.Int` holds 256 bits and `LegacyDec` 315, and an operation panics when its result
needs more.  The functions here go through the sums, ratios, products and differences of
`DistributeRewards` in the order of the source and stop at the first that panics; what is
minted is the matter of `distributeRewards`. -/

section Weights
variable (params : Params) (totalFees : Int) (totalCount : UInt64)

end Weights

end FunaiChain.Reward
