import FunaiChain.Reward.Keeper

/-!
# FunaiChain.Reward.Mints

What a distribution does, as a list of mints.  The amounts of the loops depend on the
rows only, so `DistributeRewards` executes a plan that is known before:
`distributeRewards_eq` splits it into the mints to the rows (`payAll`) and the slice of
the fund.

A record is kept under an epoch and an address string, and `SetRewardRecord` writes
over what is there.  The sum of the records of an account never rises by more than the
account receives, and rises by that much exactly when no record is written over
(`payAll_recorded`).  The slice of the fund is minted without a record.
-/

namespace FunaiChain.Reward

variable {env : Env}

section
variable {m : Mint} {s s' : State} {contributions : List WorkerContribution}
  {contribs : List VerificationContribution} {signers : List ConsensusSignerInfo}
  {onlineWorkers : List OnlineWorkerStake} {amount height : Int} {mints : List Mint}

/-! ## the plan -/

/-- One mint: the address string of the row and the amount. -/
structure Mint where
  address : String
  amount : Int
  deriving DecidableEq, Repr

section Plan
variable {ρ : Type} (pool : Int) (addressOf : ρ → String) (share : ρ → Int)

/-- The mints of a pool. -/
def plan : Int → List ρ → List Mint
  | _, [] => []
  | totalDistributed, row :: rows =>
      let alloc := allocOf pool share totalDistributed row rows
      if 0 < alloc then ⟨addressOf row, alloc⟩ :: plan (totalDistributed + alloc) rows
      else plan totalDistributed rows

/-- Every mint is positive, and goes to a row. -/
theorem mem_plan {totalDistributed : Int} {rows : List ρ}
    (h : m ∈ plan pool addressOf share totalDistributed rows) :
    0 < m.amount ∧ ∃ row ∈ rows, addressOf row = m.address := by
  induction rows generalizing totalDistributed with
  | nil => simp [plan] at h
  | cons row rows ih =>
    have htail : ∀ {d}, m ∈ plan pool addressOf share d rows →
        0 < m.amount ∧ ∃ row' ∈ row :: rows, addressOf row' = m.address := by
      intro d hmem
      obtain ⟨hpos, row', hrow, haddr⟩ := ih hmem
      exact ⟨hpos, row', .tail _ hrow, haddr⟩
    simp only [plan] at h
    split at h
    · grind
    · exact htail h

end Plan

/-- Execute a list of mints. -/
def payAll (env : Env) (epoch : Int) (s : State) (mints : List Mint) : Except Err State :=
  mints.foldlM (fun s m => reward env epoch s m.address m.amount) s

theorem payAll_cons (epoch : Int) (s : State) (m : Mint) (mints : List Mint) :
    payAll env epoch s (m :: mints) = (do
      let s ← reward env epoch s m.address m.amount
      payAll env epoch s mints) :=
  List.foldlM_cons ..

theorem payAll_append (epoch : Int) (s : State) (ms ms' : List Mint) :
    payAll env epoch s (ms ++ ms') = (do
      let s ← payAll env epoch s ms
      payAll env epoch s ms') :=
  List.foldlM_append ..

/-- **A loop executes its plan.** -/
theorem distribute_eq {ρ : Type} (epoch pool : Int) (addressOf : ρ → String) (share : ρ → Int)
    (totalDistributed : Int) (rows : List ρ) (s : State) :
    distribute env epoch pool addressOf share totalDistributed rows s =
    payAll env epoch s (plan pool addressOf share totalDistributed rows) := by
  induction rows generalizing totalDistributed s with
  | nil => rfl
  | cons _ _ ih =>
    simp only [distribute, plan]
    split
    · rw [payAll_cons]
      exact bind_congr fun s => ih _ s
    · exact ih _ s

/-! ## the plans of the four loops -/

section Plans
variable (params : Params)

def contributionMints (pool : Int) (contributions : List WorkerContribution) : List Mint :=
  plan pool (·.workerAddress)
    (fun c => shareOf (contributionWeight params (contributions.map (·.feeAmount)).sum
      (totalOf (·.taskCount) contributions) c) pool) 0 contributions

def verificationMints (pool : Int) (contribs : List VerificationContribution) : List Mint :=
  if totalOf (·.count) contribs = 0 then []
  else
    plan pool (·.workerAddress)
      (fun c => shareOf (verificationWeight params (contribs.map (·.fee)).sum
        (totalOf (·.count) contribs) c) pool) 0 contribs

def signingMints (pool : Int) (signers : List ConsensusSignerInfo) : List Mint :=
  if totalOf (·.blocksSigned) signers = 0 then []
  else
    plan pool (·.validatorAddress)
      (fun signer => shareOf ((decOfUInt64 signer.blocksSigned).quo
        (decOfUInt64 (totalOf (·.blocksSigned) signers))) pool) 0 signers

def stakeMints (pool : Int) (onlineWorkers : List OnlineWorkerStake) : List Mint :=
  if (onlineWorkers.map (·.stake)).sum = 0 then []
  else
    plan pool (·.workerAddress)
      (fun w => shareOf ((Dec.ofInt w.stake).quo
        (Dec.ofInt (onlineWorkers.map (·.stake)).sum)) pool) 0 onlineWorkers

/-- The mints of the two pools of an epoch with contributions. -/
def poolMints (epochReward : Int) (contributions : List WorkerContribution)
    (contribs : List VerificationContribution) : List Mint :=
  contributionMints params (inferenceReward params epochReward) contributions ++
    if 0 < verifierReward params epochReward ∧ !contribs.isEmpty then
      verificationMints params (verifierReward params epochReward) contribs
    else []

/-- The mints to the rows of an epoch. -/
def epochMints (height : Int) (contributions : List WorkerContribution)
    (contribs : List VerificationContribution) (signers : List ConsensusSignerInfo)
    (onlineWorkers : List OnlineWorkerStake) : List Mint :=
  let epochReward := calculateEpochReward params height
  if epochReward = 0 then []
  else if !contributions.isEmpty then poolMints params epochReward contributions contribs
  else if !signers.isEmpty then signingMints epochReward signers
  else if !onlineWorkers.isEmpty then stakeMints epochReward onlineWorkers
  else []

/-- The slice of the fund; there is one in epochs with contributions. -/
def epochFund (height : Int) (contributions : List WorkerContribution) : Int :=
  let epochReward := calculateEpochReward params height
  if epochReward = 0 ∨ contributions.isEmpty then 0 else max 0 (fundReward params epochReward)

end Plans

/-- The address strings that an epoch may mint to. -/
def addresses (contributions : List WorkerContribution)
    (contribs : List VerificationContribution) (signers : List ConsensusSignerInfo)
    (onlineWorkers : List OnlineWorkerStake) : List String :=
  contributions.map (·.workerAddress) ++ contribs.map (·.workerAddress) ++
    signers.map (·.validatorAddress) ++ onlineWorkers.map (·.workerAddress)

theorem mem_contributionMints {params : Params} {pool : Int}
    (h : m ∈ contributionMints params pool contributions) :
    0 < m.amount ∧ ∃ c ∈ contributions, c.workerAddress = m.address :=
  mem_plan _ _ _ h

theorem mem_verificationMints {params : Params} {pool : Int}
    (h : m ∈ verificationMints params pool contribs) :
    0 < m.amount ∧ ∃ c ∈ contribs, c.workerAddress = m.address := by
  unfold verificationMints at h
  split at h
  · cases h
  · exact mem_plan _ _ _ h

theorem mem_signingMints {pool : Int} (h : m ∈ signingMints pool signers) :
    0 < m.amount ∧ ∃ signer ∈ signers, signer.validatorAddress = m.address := by
  unfold signingMints at h
  split at h
  · cases h
  · exact mem_plan _ _ _ h

theorem mem_stakeMints {pool : Int} (h : m ∈ stakeMints pool onlineWorkers) :
    0 < m.amount ∧ ∃ w ∈ onlineWorkers, w.workerAddress = m.address := by
  unfold stakeMints at h
  split at h
  · cases h
  · exact mem_plan _ _ _ h

/-- **Every mint of an epoch** is positive and goes to a listed address. -/
theorem mem_epochMints {params : Params}
    (h : m ∈ epochMints params height contributions contribs signers onlineWorkers) :
    0 < m.amount ∧ m.address ∈ addresses contributions contribs signers onlineWorkers := by
  unfold addresses
  simp only [List.mem_append, List.mem_map]
  unfold epochMints at h
  dsimp only at h
  split at h
  · cases h
  split at h
  · rw [poolMints, List.mem_append] at h
    obtain h | h := h
    · obtain ⟨hpos, hrow⟩ := mem_contributionMints h
      exact ⟨hpos, .inl (.inl (.inl hrow))⟩
    · split at h
      · obtain ⟨hpos, hrow⟩ := mem_verificationMints h
        exact ⟨hpos, .inl (.inl (.inr hrow))⟩
      · contradiction
  split at h
  · obtain ⟨hpos, hrow⟩ := mem_signingMints h
    exact ⟨hpos, .inl (.inr hrow)⟩
  split at h
  · obtain ⟨hpos, hrow⟩ := mem_stakeMints h
    exact ⟨hpos, .inr hrow⟩
  · contradiction

theorem epochFund_nonneg (params : Params) (height : Int)
    (contributions : List WorkerContribution) : 0 ≤ epochFund params height contributions := by
  unfold epochFund
  dsimp only
  split
  · exact le_refl 0
  · exact le_max_left 0 _

variable (s) (epoch pool : Int)

theorem distributeByContribution_eq (contributions : List WorkerContribution) (params : Params) :
    distributeByContribution env s epoch pool contributions params =
    payAll env epoch s (contributionMints params pool contributions) :=
  distribute_eq ..

theorem distributeByVerification_eq (contribs : List VerificationContribution) (params : Params) :
    distributeByVerification env s epoch pool contribs params =
    payAll env epoch s (verificationMints params pool contribs) := by
  unfold distributeByVerification verificationMints
  dsimp only
  split
  · rfl
  · exact distribute_eq ..

theorem distributeByConsensusSigning_eq (signers : List ConsensusSignerInfo) :
    distributeByConsensusSigning env s epoch pool signers =
    payAll env epoch s (signingMints pool signers) := by
  unfold distributeByConsensusSigning signingMints
  dsimp only
  split
  · rfl
  · exact distribute_eq ..

theorem distributeByStake_eq (onlineWorkers : List OnlineWorkerStake) :
    distributeByStake env s epoch pool onlineWorkers =
    payAll env epoch s (stakeMints pool onlineWorkers) := by
  unfold distributeByStake stakeMints
  dsimp only
  split
  · rfl
  · exact distribute_eq ..

theorem mintFund_zero : mintFund env s 0 = .ok s := if_neg (lt_irrefl 0)

theorem mintFund_max (amount : Int) : mintFund env s (max 0 amount) = mintFund env s amount := by
  by_cases h : 0 < amount
  · rw [max_eq_right h.le]
  · rw [max_eq_left (by omega), mintFund_zero, mintFund, if_neg h]

/-- **A distribution executes its plan** and then mints the slice of the
fund. -/
theorem distributeRewards_eq (height : Int) (contributions : List WorkerContribution)
    (contribs : List VerificationContribution) (signers : List ConsensusSignerInfo)
    (onlineWorkers : List OnlineWorkerStake) :
    distributeRewards env s height contributions contribs signers onlineWorkers = (do
      let s' ← payAll env (epochOf s.params height) s
        (epochMints s.params height contributions contribs signers onlineWorkers)
      mintFund env s' (epochFund s.params height contributions)) := by
  have hbind : ∀ x : Except Err State, (x >>= fun s => mintFund env s 0) = x := by
    intro x
    cases x with
    | error => rfl
    | ok => rw [ok_bind, mintFund_zero]
  unfold distributeRewards epochMints epochFund
  dsimp only
  generalize calculateEpochReward s.params height = epochReward
  by_cases hzero : epochReward = 0
  · simp only [hzero, true_or, if_true, hbind]
    rfl
  cases hnone : contributions.isEmpty with
  | false =>
    simp only [hzero, Bool.not_false, if_false, if_true, or_self, Bool.false_eq_true,
      mintFund_max, distributeByContribution_eq, distributeByVerification_eq, poolMints,
      payAll_append, bind_assoc]
    refine bind_congr fun s₁ => ?_
    split <;> rfl
  | true =>
    simp only [hzero, Bool.not_true, if_false, if_true, or_true, Bool.false_eq_true, hbind,
      distributeByConsensusSigning_eq, distributeByStake_eq]
    split
    · rfl
    · split <;> rfl

/-! ## what a mint does -/

/-- The state after a mint to an account. -/
def State.minted (a : Addr) (amount : Int) : State :=
  { s with bank := s.bank.credit a ⟨bondDenom, amount⟩, supply := s.supply + amount }

variable {s}

/-- May an account receive coins of the module? -/
def Accepted (env : Env) (address : String) (a : Addr) : Prop :=
  env.accAddressFromBech32 address = some a ∧ env.blockedAddr a = false

theorem mintAndSend_eq_ok {address : String} (hamount : 0 ≤ amount)
    (h : mintAndSend env s address amount = .ok s') :
    ∃ a, Accepted env address a ∧ s' = s.minted a amount := by
  unfold mintAndSend at h
  dsimp only at h
  split at h
  · cases h
  next a ha =>
  split at h
  · cases h
  next bank hsend =>
  obtain ⟨hblocked, hsend⟩ := Host.sendCoinsFromModuleToAccount_eq_some hsend
  have hbank := hsend.symm.trans
    (s.bank.sendCoins_credit env.rewardAccount a (c := ⟨bondDenom, amount⟩) hamount)
  cases hbank
  exact ⟨a, ⟨ha, hblocked⟩, (Except.ok.inj h).symm⟩

theorem minted_zero (s : State) (a : Addr) : s.minted a 0 = s := by
  have hbank : s.bank.credit a ⟨bondDenom, 0⟩ = s.bank := by
    cases s.bank
    simp [Bank.credit]
  rw [State.minted, hbank, Int.add_zero]

theorem balance_minted (s : State) (a b : Addr) (d : String) (h : 0 ≤ amount) :
    ((s.minted a amount).bank.balance b d : Int) =
      s.bank.balance b d + if b = a ∧ d = bondDenom then amount else 0 := by
  simp only [State.minted, Bank.credit]
  split
  · omega
  · omega

theorem mintFund_eq_ok (hamount : 0 ≤ amount) (h : mintFund env s amount = .ok s') :
    s' = s.minted env.settlementAccount amount := by
  unfold mintFund at h
  split at h
  · dsimp only at h
    split at h
    · cases h
    next bank hsend =>
    have hbank := (Host.sendCoins_eq_some hsend).symm.trans
      (s.bank.sendCoins_credit env.rewardAccount env.settlementAccount
        (c := ⟨bondDenom, amount⟩) hamount)
    cases hbank
    exact (Except.ok.inj h).symm
  · next hzero =>
    obtain rfl : amount = 0 := by omega
    rw [minted_zero]
    exact (Except.ok.inj h).symm

/-! ## what a list of mints does -/

/-- What the mints give to an account. -/
def received (env : Env) (mints : List Mint) (a : Addr) : Int :=
  (mints.map fun m => if env.accAddressFromBech32 m.address = some a then m.amount else 0).sum

theorem received_nonneg (env : Env) (h : ∀ m ∈ mints, 0 ≤ m.amount) (a : Addr) :
    0 ≤ received env mints a := by
  refine List.sum_nonneg fun x hx => ?_
  obtain ⟨m, hm, rfl⟩ := List.mem_map.mp hx
  split
  · exact h m hm
  · exact le_refl 0

/-- The record that the mints leave for an address string: that of the last
one. -/
def recordOf (epoch : Int) (address : String) : List Mint → Option RewardRecord
  | [] => none
  | m :: mints =>
      (recordOf epoch address mints).or
        (if m.address = address then some ⟨epoch, m.address, ⟨bondDenom, m.amount⟩⟩ else none)

/-- **What executing mints does.** -/
structure Paid (env : Env) (epoch : Int) (s : State) (mints : List Mint) (s' : State) : Prop where
  accepted : ∀ m ∈ mints, ∃ a, Accepted env m.address a
  params : s'.params = s.params
  supply : s'.supply = s.supply + (mints.map (·.amount)).sum
  balance : ∀ a d, (s'.bank.balance a d : Int) =
    s.bank.balance a d + if d = bondDenom then received env mints a else 0
  records : ∀ k, s'.records.get k =
    (if k.epoch = epoch then recordOf epoch k.workerAddress mints else none).or (s.records.get k)

theorem get_setRewardRecord (s : State) (record : RewardRecord) (k : RecordKey) :
    (s.setRewardRecord record).records.get k =
      if (⟨record.epoch, record.workerAddress⟩ : RecordKey) = k then some record
      else s.records.get k :=
  Table.get_set s.records _ k record ⟨rfl, rfl⟩

theorem payAll_spec {epoch : Int} (hpos : ∀ m ∈ mints, 0 < m.amount)
    (h : payAll env epoch s mints = .ok s') : Paid env epoch s mints s' := by
  induction mints generalizing s with
  | nil =>
    cases h
    exact ⟨by simp, rfl, by simp, by simp [received], by simp [recordOf]⟩
  | cons m mints ih =>
    obtain ⟨s₁, hreward, h⟩ := bind_eq_ok.mp h
    obtain ⟨s₂, hmint, hreward⟩ := bind_eq_ok.mp hreward
    cases hreward
    have hamount : 0 ≤ m.amount := (hpos m (.head _)).le
    obtain ⟨a, haccepted, rfl⟩ := mintAndSend_eq_ok hamount hmint
    have hrest := ih (fun m hm => hpos m (.tail _ hm)) h
    constructor
    case accepted =>
      intro m' hm'
      obtain rfl | hm' := List.mem_cons.mp hm'
      · exact ⟨a, haccepted⟩
      · exact hrest.accepted m' hm'
    case params => exact hrest.params
    case supply =>
      rw [hrest.supply, List.map_cons, List.sum_cons]
      simp only [State.setRewardRecord, State.minted]
      omega
    case balance =>
      intro b d
      have hfirst := balance_minted s a b d hamount
      have hreceived : received env (m :: mints) b =
          (if b = a then m.amount else 0) + received env mints b := by
        simp only [received, List.map_cons, List.sum_cons, haccepted.1, Option.some.injEq, eq_comm]
      rw [hrest.balance b d, hreceived]
      simp only [State.setRewardRecord]
      rw [hfirst]
      grind
    case records =>
      intro k
      rw [hrest.records k, get_setRewardRecord]
      obtain ⟨e, address⟩ := k
      by_cases he : e = epoch
      · subst he
        simp only [if_true, recordOf, RecordKey.mk.injEq, true_and, Option.or_assoc]
        congr 1
        by_cases haddress : m.address = address
        · simp [haddress]
        · simp [haddress, State.minted]
      · have hkey : ¬ epoch = e := fun heq => he heq.symm
        simp [he, hkey, State.minted]

section
variable
  (h : distributeRewards env s height contributions contribs signers onlineWorkers = .ok s')

include h

/-- **What a distribution does**: its mints, then the slice of the fund. -/
theorem distributeRewards_spec : ∃ s₁, Paid env (epochOf s.params height) s
    (epochMints s.params height contributions contribs signers onlineWorkers) s₁ ∧
    s' = s₁.minted env.settlementAccount (epochFund s.params height contributions) := by
  rw [distributeRewards_eq] at h
  obtain ⟨s₁, hpay, hfund⟩ := bind_eq_ok.mp h
  exact ⟨s₁, payAll_spec (fun m hm => (mem_epochMints hm).1) hpay,
    mintFund_eq_ok (epochFund_nonneg ..) hfund⟩

/-- A distribution takes nothing from an account. -/
theorem distributeRewards_balance_le (a : Addr) (d : String) :
    s.bank.balance a d ≤ s'.bank.balance a d := by
  obtain ⟨s₁, hpaid, rfl⟩ := distributeRewards_spec h
  have hreceived : 0 ≤ received env
      (epochMints s.params height contributions contribs signers onlineWorkers) a :=
    received_nonneg env (fun m hm => (mem_epochMints hm).1.le) a
  have hfund := epochFund_nonneg s.params height contributions
  have hminted := balance_minted s₁ env.settlementAccount a d hfund
  have hbalance := hpaid.balance a d
  split at hminted <;> split at hbalance <;> omega

end

/-! ## a small instance -/

/-- Addresses are the characters of their strings, and the bank refuses the three
module accounts. -/
def devEnv : Env where
  accAddressFromBech32 := fun s =>
    if s = "" then none else some (s.toList.map fun c => UInt8.ofNat c.toNat)
  settlementAccount := [0]
  workerAccount := [1]
  rewardAccount := [2]
  blockedAddr := fun a => [[0], [1], [2]].contains a
  sendRefused := fun _ _ _ _ => false
  signs := fun a => ! [[0], [1], [2]].contains a
  settlement_blocked := by decide
  accounts_differ := by decide
  reward_blocked := by decide
  reward_differs := by decide

/-- The default parameters, no records and an empty bank. -/
def devState : State := ⟨.default, ∅, ⟨fun _ _ => 0⟩, 0⟩

end

variable {epoch : Int}

/-! ## the records of an account -/

section
variable (env : Env) (s : State) (epoch : Int) (a : Addr)

/-- What a record counts for an account. -/
def recordedIn (k : RecordKey) (r : RewardRecord) : Int :=
  if k.epoch = epoch ∧ env.accAddressFromBech32 k.workerAddress = some a then r.amount.amount
  else 0

/-- The sum of the records of an epoch whose address is the account. -/
def recorded : Int :=
  s.records.sum (recordedIn env epoch a)

/-- The address strings of an account that the mints name. -/
def stringsOf (mints : List Mint) : List String :=
  (mints.map (·.address)).filter fun address => env.accAddressFromBech32 address == some a

/-- Every stored amount is positive, as everything that is recorded is. -/
def State.Positive : Prop := ∀ k r, s.records.get k = some r → 0 < r.amount.amount

end

/-- The mints to an account write over no record. -/
structure Unrecorded (env : Env) (epoch : Int) (s : State) (a : Addr) (mints : List Mint) :
    Prop where
  nodup : (stringsOf env a mints).Nodup
  fresh : ∀ address ∈ stringsOf env a mints, s.records.get ⟨epoch, address⟩ = none

theorem unrecorded_nil (s : State) (a : Addr) : Unrecorded env epoch s a [] :=
  ⟨List.nodup_nil, by simp [stringsOf]⟩

/-! ## one mint -/

section Step
variable {s : State} {m : Mint} {mints : List Mint} {a b : Addr}

/-- The state after one mint to the account `b`. -/
def State.rewarded (s : State) (epoch : Int) (m : Mint) (b : Addr) : State :=
  (s.minted b m.amount).setRewardRecord ⟨epoch, m.address, ⟨bondDenom, m.amount⟩⟩

theorem reward_eq_ok {s' : State} (hamount : 0 ≤ m.amount)
    (h : reward env epoch s m.address m.amount = .ok s') :
    ∃ b, Accepted env m.address b ∧ s' = s.rewarded epoch m b := by
  obtain ⟨s₁, hmint, hrecord⟩ := bind_eq_ok.mp h
  obtain ⟨b, haccepted, rfl⟩ := mintAndSend_eq_ok hamount hmint
  exact ⟨b, haccepted, (Except.ok.inj hrecord).symm⟩

theorem get_rewarded (k : RecordKey) : (s.rewarded epoch m b).records.get k =
      if (⟨epoch, m.address⟩ : RecordKey) = k then some ⟨epoch, m.address, ⟨bondDenom, m.amount⟩⟩
      else s.records.get k :=
  get_setRewardRecord ..

theorem rewarded_positive (hs : s.Positive) (hamount : 0 < m.amount) :
    (s.rewarded epoch m b).Positive := by
  intro k r hr
  rw [get_rewarded] at hr
  split at hr
  · cases hr
    exact hamount
  · exact hs k r hr

/-- A mint to another account leaves the records of `a`. -/
theorem recorded_rewarded_of_ne (hm : env.accAddressFromBech32 m.address ≠ some a) :
    recorded env (s.rewarded epoch m b) epoch a = recorded env s epoch a := by
  have hset := s.records.sum_set (recordedIn env epoch a) ⟨epoch, m.address⟩
    ⟨epoch, m.address, ⟨bondDenom, m.amount⟩⟩ ⟨rfl, rfl⟩
  have hpart : s.records.part (recordedIn env epoch a) ⟨epoch, m.address⟩ = 0 := by
    unfold Table.part
    split <;> simp [recordedIn, hm]
  have hnew : recordedIn env epoch a ⟨epoch, m.address⟩
      ⟨epoch, m.address, ⟨bondDenom, m.amount⟩⟩ = 0 := if_neg fun h => hm h.2
  rw [hpart, hnew, Int.sub_zero, Int.add_zero] at hset
  exact hset

/-- A mint to `a` takes the place of the record under its string. -/
theorem recorded_rewarded (hm : env.accAddressFromBech32 m.address = some a) :
    recorded env (s.rewarded epoch m b) epoch a = recorded env s epoch a -
    s.records.part (recordedIn env epoch a) ⟨epoch, m.address⟩ + m.amount := by
  have hset := s.records.sum_set (recordedIn env epoch a) ⟨epoch, m.address⟩
    ⟨epoch, m.address, ⟨bondDenom, m.amount⟩⟩ ⟨rfl, rfl⟩
  have hnew : recordedIn env epoch a ⟨epoch, m.address⟩
      ⟨epoch, m.address, ⟨bondDenom, m.amount⟩⟩ = m.amount := if_pos ⟨rfl, hm⟩
  rw [hnew] at hset
  exact hset

/-- The place of a string of `a` is worth something exactly when it is taken. -/
theorem part_recordedIn (epoch : Int) (hs : s.Positive)
    (hm : env.accAddressFromBech32 m.address = some a) :
    0 ≤ s.records.part (recordedIn env epoch a) ⟨epoch, m.address⟩ ∧
    (s.records.part (recordedIn env epoch a) ⟨epoch, m.address⟩ = 0 ↔
    s.records.get ⟨epoch, m.address⟩ = none) := by
  unfold Table.part
  cases hr : s.records.get ⟨epoch, m.address⟩ with
  | none => simp
  | some r =>
    have hpos := hs _ r hr
    have hin : recordedIn env epoch a ⟨epoch, m.address⟩ r = r.amount.amount := if_pos ⟨rfl, hm⟩
    simp only [hin, reduceCtorEq, iff_false]
    exact ⟨hpos.le, hpos.ne'⟩

theorem stringsOf_cons (m : Mint) (mints : List Mint) : stringsOf env a (m :: mints) =
      if env.accAddressFromBech32 m.address = some a then m.address :: stringsOf env a mints
      else stringsOf env a mints := by
  simp [stringsOf, List.filter_cons]

/-- A mint to another account writes over nothing of `a`. -/
theorem unrecorded_cons_of_ne (hm : env.accAddressFromBech32 m.address ≠ some a) :
    Unrecorded env epoch s a (m :: mints) ↔
    Unrecorded env epoch (s.rewarded epoch m b) a mints := by
  have hstrings : stringsOf env a (m :: mints) = stringsOf env a mints := by
    rw [stringsOf_cons, if_neg hm]
  have hget : ∀ address ∈ stringsOf env a mints,
      (s.rewarded epoch m b).records.get ⟨epoch, address⟩ = s.records.get ⟨epoch, address⟩ := by
    intro address hmem
    rw [get_rewarded, if_neg]
    intro hkey
    obtain rfl : m.address = address := (RecordKey.mk.inj hkey).2
    exact hm (beq_iff_eq.mp (List.mem_filter.mp hmem).2)
  constructor
  · rintro ⟨hnodup, hfresh⟩
    rw [hstrings] at hnodup hfresh
    exact ⟨hnodup, fun address hmem => (hget address hmem).trans (hfresh address hmem)⟩
  · rintro ⟨hnodup, hfresh⟩
    rw [← hstrings] at hnodup
    refine ⟨hnodup, fun address hmem => ?_⟩
    rw [hstrings] at hmem
    exact (hget address hmem).symm.trans (hfresh address hmem)

/-- A mint to `a` writes over nothing when its place is free, and the later ones
write over nothing, this mint included. -/
theorem unrecorded_cons (hm : env.accAddressFromBech32 m.address = some a) :
    Unrecorded env epoch s a (m :: mints) ↔ s.records.get ⟨epoch, m.address⟩ = none ∧
    Unrecorded env epoch (s.rewarded epoch m b) a mints := by
  have hstrings : stringsOf env a (m :: mints) = m.address :: stringsOf env a mints := by
    rw [stringsOf_cons, if_pos hm]
  constructor
  · rintro ⟨hnodup, hfresh⟩
    rw [hstrings] at hnodup hfresh
    obtain ⟨hnotin, hnodup⟩ := List.nodup_cons.mp hnodup
    refine ⟨hfresh _ (.head _), hnodup, fun address hmem => ?_⟩
    rw [get_rewarded, if_neg]
    · exact hfresh address (.tail _ hmem)
    · grind
  · rintro ⟨hfree, hnodup, hfresh⟩
    have hother : ∀ address ∈ stringsOf env a mints, m.address ≠ address ∧
        s.records.get ⟨epoch, address⟩ = none := by
      intro address hmem
      have hnone := hfresh address hmem
      rw [get_rewarded] at hnone
      split at hnone
      · cases hnone
      next hkey => exact ⟨fun heq => hkey (by rw [heq]), hnone⟩
    constructor
    · grind
    · grind

theorem received_cons (m : Mint) (mints : List Mint) : received env (m :: mints) a =
      (if env.accAddressFromBech32 m.address = some a then m.amount else 0) +
        received env mints a := by
  simp [received]

end Step

/-! ## a list of mints -/

/-- **The records of an account rise by at most what it receives**, and by
exactly that when no record is written over. -/
theorem payAll_recorded {s s' : State} {mints : List Mint} (hs : s.Positive)
    (hpos : ∀ m ∈ mints, 0 < m.amount) (h : payAll env epoch s mints = .ok s') (a : Addr) :
    recorded env s' epoch a ≤ recorded env s epoch a + received env mints a ∧
    (recorded env s' epoch a = recorded env s epoch a + received env mints a ↔
    Unrecorded env epoch s a mints) := by
  induction mints generalizing s with
  | nil =>
    cases h
    simp [received, unrecorded_nil]
  | cons m _ ih =>
    obtain ⟨s₁, hreward, h⟩ := bind_eq_ok.mp h
    have hamount := hpos m (.head _)
    obtain ⟨b, -, rfl⟩ := reward_eq_ok hamount.le hreward
    obtain ⟨hle, hiff⟩ := ih (rewarded_positive hs hamount) (fun m hm => hpos m (.tail _ hm)) h
    rw [received_cons]
    by_cases hm : env.accAddressFromBech32 m.address = some a
    · obtain ⟨hnonneg, hfree⟩ := part_recordedIn epoch hs hm
      rw [recorded_rewarded hm] at hle hiff
      rw [if_pos hm, unrecorded_cons (b := b) hm, ← hiff, ← hfree]
      omega
    · rw [recorded_rewarded_of_ne hm] at hle hiff
      rw [if_neg hm, unrecorded_cons_of_ne (b := b) hm, ← hiff]
      omega

/-! ## a distribution -/

section Distribution
variable {s s' : State} {height : Int} {contributions : List WorkerContribution}
  {contribs : List VerificationContribution} {signers : List ConsensusSignerInfo}
  {onlineWorkers : List OnlineWorkerStake}

/-- **The records of an epoch rise by what an account is minted** exactly when
no record of the account is written over and the account is not the settlement
account taking the slice of the fund. -/
theorem records_tell_the_truth (hs : s.Positive)
    (h : distributeRewards env s height contributions contribs signers onlineWorkers = .ok s')
    (a : Addr) : recorded env s' (epochOf s.params height) a =
        recorded env s (epochOf s.params height) a +
          (s'.bank.balance a bondDenom - s.bank.balance a bondDenom) ↔
      Unrecorded env (epochOf s.params height) s a
          (epochMints s.params height contributions contribs signers onlineWorkers) ∧
        (a = env.settlementAccount → epochFund s.params height contributions = 0) := by
  rw [distributeRewards_eq] at h
  obtain ⟨s₁, hpay, hfund⟩ := bind_eq_ok.mp h
  have hpos : ∀ m ∈ epochMints s.params height contributions contribs signers onlineWorkers,
      0 < m.amount := fun m hm => (mem_epochMints hm).1
  have hnonneg := epochFund_nonneg s.params height contributions
  obtain rfl := mintFund_eq_ok hnonneg hfund
  obtain ⟨hle, hiff⟩ := payAll_recorded hs hpos hpay a
  have hrow := (payAll_spec hpos hpay).balance a bondDenom
  have hslice := balance_minted s₁ env.settlementAccount a bondDenom hnonneg
  -- the slice of the fund is minted without a record
  have hrecords : recorded env (s₁.minted env.settlementAccount
      (epochFund s.params height contributions)) (epochOf s.params height) a =
        recorded env s₁ (epochOf s.params height) a := rfl
  simp only [and_true, if_true] at hrow hslice
  rw [hrecords, hslice, hrow, ← hiff]
  grind

end Distribution

theorem devState_positive : devState.Positive := by
  intro k r hr
  have hnone : devState.records.get k = none := Table.get_empty k
  contradiction

/-- A worker and a verifier with different addresses: the record of the worker
is what it was minted. -/
theorem records_tell_the_truth_devnet :
    ∃ s', distributeRewards devEnv devState 100 [⟨"a", 10, 1⟩] [⟨"b", 1, 0, some 1⟩] [] [] =
        .ok s' ∧ recorded devEnv s' 1 [97] = recorded devEnv devState 1 [97] +
        (s'.bank.balance [97] bondDenom - devState.bank.balance [97] bondDenom) := by
  have hdistribute : ∃ s', distributeRewards devEnv devState 100 [⟨"a", 10, 1⟩]
      [⟨"b", 1, 0, some 1⟩] [] [] = .ok s' ∧ True := by decide +kernel
  obtain ⟨s', hs', -⟩ := hdistribute
  refine ⟨s', hs', (records_tell_the_truth devState_positive hs' [97]).mpr ⟨⟨?_, ?_⟩, ?_⟩⟩
  · decide +kernel
  · exact fun address _ => Table.get_empty _
  · decide

/-- A worker that also verifies is minted by both pools, and its record holds the
second amount only. -/
theorem record_written_over :
    ∃ s', distributeRewards devEnv devState 100 [⟨"a", 10, 1⟩] [⟨"a", 1, 0, some 1⟩] [] [] =
        .ok s' ∧ recorded devEnv s' 1 [97] = 48000000000 ∧
      s'.bank.balance [97] bondDenom = 388000000000 := by decide +kernel

end FunaiChain.Reward
