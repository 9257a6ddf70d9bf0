import FunaiChain.Settlement.Refinement

/-!
# FunaiChain.Settlement.Devnet

A small instance of the environment, on which concrete runs can be executed:
addresses are the characters of their strings, a hash is the first 32 bytes
of its argument, and every signature is good.  With such a hash the first
byte of a task id decides whether the task is drawn for audit.

A devnet starts from accounts whose balances the settlement account holds
exactly (`atGenesis_devnet`).
-/

namespace FunaiChain.Settlement

/-! ## the environment -/

def devAddr (s : String) : Addr := s.toList.map fun c => UInt8.ofNat c.toNat

def devSettlementAccount : Addr := [0]
def devWorkerAccount : Addr := [1]

def devEnv : Env where
  accAddressFromBech32 := fun s => if s = "" then none else some (devAddr s)
  settlementAccount := devSettlementAccount
  workerAccount := devWorkerAccount
  blockedAddr := fun a => a == devSettlementAccount || a == devWorkerAccount
  sendRefused := fun _ _ _ _ => false
  signs := fun a => a != devSettlementAccount && a != devWorkerAccount
  settlement_blocked := by decide
  accounts_differ := by decide
  sha256 := fun b => (b ++ List.replicate 32 0).take 32
  verifySignature := fun _ _ _ => true
  base64Decode := fun _ => some (List.replicate 33 2)
  hexDecode := fun _ => none
  bech32Payload := fun _ => none
  marshalEntry := fun e => e.taskId
  marshalReserveEntry := fun e => e.taskId
  floatRate := fun base _ _ _ _ => base

/-- The environment in which messages arrive in every name. -/
def Env.opened (env : Env) : Env := { env with signs := fun _ => true }

/-! ## genesis -/

/-- A registered worker with some stake. -/
def devWorker (name : String) : Worker where
  address := devAddr name
  pubkey := "key"
  stake := ⟨defaultDenom, 10000⟩
  status := .active
  jailCount := 0
  jailed := false
  jailUntil := 0
  tombstoned := false
  successStreak := 0
  totalTasks := 0
  totalFeeEarned := ⟨defaultDenom, 0⟩
  lastActiveBlock := 0
  reputationScore := reputationInitial
  consecutiveRejects := 0
  avgLatencyMs := 0

theorem devWorker_address (name : String) : (devWorker name).address = devAddr name := rfl

def devWorkers : Table Addr Worker fun a w => w.address = a :=
  Table.empty.set (devAddr "worker") (devWorker "worker") (devWorker_address _)

theorem get_devWorkers (a : Addr) : devWorkers.get a =
    if devAddr "worker" = a then some (devWorker "worker") else none := by
  rw [devWorkers, Table.get_set]
  simp [show Table.empty.get a = (none : Option Worker) from Table.get_empty a]

/-- The accounts with their balances, the coins behind them, and one
worker. -/
def devnet (params : Params) (accounts : List (String × Nat)) : Chain where
  ctx := ⟨1, [], []⟩
  state := initGenesis
    { params := params
      inferenceAccounts := accounts.map fun a => ⟨devAddr a.1, ⟨defaultDenom, a.2⟩, Coin.zero⟩
      batchRecords := [] }
    { bank := ⟨fun a d => if a = devSettlementAccount ∧ d = defaultDenom then
        (accounts.map Prod.snd).sum else 0⟩
      workers := devWorkers
      workerParams := WorkerParams.default }

/-- The default parameters with per-token billing. -/
def devBilling : Params := { Params.default with perTokenBillingEnabled := true }

/-- **A devnet is at its genesis**, for valid parameters and distinct
addresses. -/
theorem atGenesis_devnet {params : Params} {accounts : List (String × Nat)}
    (hparams : params.validate = none) (hnodup : (accounts.map fun a => devAddr a.1).Nodup) :
    AtGenesis devEnv (devnet params accounts) where
  height := Int.one_pos
  genesis := by
    refine ⟨_, ?_, ?_, rfl⟩
    · simp only [GenesisState.validate, hparams, Bool.and_eq_true, List.map_map,
        decide_eq_true_eq, List.all_eq_true]
      refine ⟨⟨rfl, hnodup⟩, fun ia hia => ?_⟩
      obtain ⟨a, -, rfl⟩ := List.mem_map.mp hia
      simp [Coin.isValid, validDenom_default]
    · grind
  signed := by
    intro a ha
    change (devWorkers.get a).isSome at ha
    rw [get_devWorkers] at ha
    split at ha
    · next he => rw [← he]; decide
    · simp at ha

/-! ## events -/

/-- The devnet of most runs: one user with 1000. -/
theorem atGenesis_user : AtGenesis devEnv (devnet .default [("user", 1000)]) :=
  atGenesis_devnet Params.default_valid (by decide)

variable (t : TaskId) (user : String)

/-- A per-request entry of a task that succeeded. -/
def devEntry (fee expireBlock : Int) : SettlementEntry where
  taskId := t
  userAddress := user
  workerAddress := "worker"
  verifierResults := []
  fee := ⟨defaultDenom, fee⟩
  status := .success
  expireBlock := expireBlock
  modelId := ""
  latencyMs := 0
  userSigHash := [1]
  workerSigHash := [1]
  verifySigHashes := [[1], [1], [1]]
  resultCount := 1
  feePerInputToken := 0
  feePerOutputToken := 0
  maxFee := Coin.zero
  workerInputTokens := 0
  workerOutputTokens := 0
  dispatchRank := 0
  acceptedAtMs := 0
  receiptAtMs := 0

/-- A settlement batch signed by the worker. -/
def devBatch (entries : List SettlementEntry) : Event :=
  .tx (.batchSettlement {
    proposer := "worker"
    merkleRoot := (computeMerkleRoot devEnv entries).getD []
    entries := entries
    proposerSig := [1]
    resultCount := lenUInt32 entries })

/-- A row of a reserve batch. -/
def devRow (maxFee expireBlock : Int) : ReserveEntry where
  userAddress := user
  taskId := t
  maxFee := ⟨defaultDenom, maxFee⟩
  expireBlock := expireBlock

/-- A reserve batch signed by the worker. -/
def devReserve (rows : List ReserveEntry) : Event :=
  .tx (.batchReserve {
    proposer := "worker"
    merkleRoot := (computeReserveMerkleRoot devEnv rows).getD []
    entries := rows
    proposerSig := [1]
    resultCount := lenUInt32 rows })

/-- The entry of a task that failed. -/
def devFail (fee expireBlock : Int) : SettlementEntry :=
  { devEntry t user fee expireBlock with status := .fail }

/-- A vote on an audited task. -/
def devVote (secondVerifier : String) (t : TaskId) (pass : Bool) : Event :=
  .tx (.secondVerificationResult ⟨secondVerifier, t, 0, pass, [1], 0, 0⟩)

/-- Thirty-two bytes, as fraud proofs ask for. -/
def devHash (b : UInt8) : Bytes := b :: List.replicate 31 0

/-- A user proves that the worker signed two different results. -/
def devFraud (reporter : String) (t : TaskId) : Event :=
  .tx (.fraudProof ⟨reporter, t, "worker", devHash 1, [1], devHash 2, [1]⟩)

/-- Another module gives a user coins. -/
def devCoins (amount : Nat) : Event :=
  .outside {
    balances := fun a d => if a = devAddr user ∧ d = defaultDenom then amount else 0
    workers := devWorkers
    workerParams := WorkerParams.default
    verifierEpochCount := ∅
    secondVerifierEpochCount := ∅
    verifierEpochFee := ∅
    secondVerifierEpochFee := ∅ }

/-- More workers register. -/
def devRegister (names : List String) : Event :=
  .outside {
    balances := fun _ _ => 0
    workers := names.foldl
      (fun workers name => workers.set (devAddr name) (devWorker name) (devWorker_address name))
      devWorkers
    workerParams := WorkerParams.default
    verifierEpochCount := ∅
    secondVerifierEpochCount := ∅
    verifierEpochFee := ∅
    secondVerifierEpochFee := ∅ }

def devDeposit (amount : Int) : Event :=
  .tx (.deposit ⟨user, ⟨defaultDenom, amount⟩⟩)

/-- The end of the block, with the next one at a height. -/
def devEndBlock (next : Int) : Event := .endBlock ⟨next, [], []⟩

end FunaiChain.Settlement
