import FunaiChain.Settlement.Types
import FunaiChain.Worker.Keeper
import Mathlib.Data.List.Sort

/-!
# FunaiChain.Settlement.State

The state the settlement keeper works on: its parameters, the ledger, the
bookkeeping stores (`Book`) and the world of the bank and the workers.  A
function that leaves the ledger and the settlement account alone satisfies
`State.Quiet`; the larger functions are described by what they do to the ledger
between quiet steps.

Two parts of the keeper that do not write the ledger stand here too.

* What binds a message to its author and a task to its audit: the Merkle root over
  the entries of a batch (`da_client.go`), the decoding of worker keys
  (`pubkey.go`), the proposer's signature and the hash draw.
* Per-token billing, in the 32-bit counts and 64-bit prices of the source, and the
  tracking of worker-verifier pairs.
-/

namespace FunaiChain.Settlement

section
variable {s s' : State} {b b' : Book} {ctx : Ctx} {address : String} {amount : Int}

/-! ## environment -/

/-- What the keeper uses from outside the module: the application, hashing
and signatures, the standard text decoders, the JSON encoding of entries and
the floating-point part of the audit rates. -/
structure Env extends Host where
  sha256 : Bytes → Bytes
  /-- `secp256k1.PubKey.VerifySignature`: key, message, signature. -/
  verifySignature : Bytes → Bytes → Bytes → Bool
  base64Decode : String → Option Bytes
  hexDecode : String → Option Bytes
  /-- The payload of `bech32.DecodeAndConvert`. -/
  bech32Payload : String → Option Bytes
  marshalEntry : SettlementEntry → Bytes
  marshalReserveEntry : ReserveEntry → Bytes
  /-- `uint32(base * (1 + 10 * a / b + 50 * c / d))` in `float64`, where a
  ratio with a zero denominator counts as zero. -/
  floatRate : UInt32 → UInt64 → UInt64 → UInt64 → UInt64 → UInt32

/-- The block a function runs in. -/
structure Ctx where
  height : Int
  headerHash : Bytes
  lastBlockIdHash : Bytes

namespace Ctx

/-- The epoch of a block. -/
def epoch (ctx : Ctx) : Int := ctx.height.tdiv 100

end Ctx

/-! ## the state -/

/-- The stores that only bookkeeping functions write. -/
structure Book where
  epochStats : Table Int EpochStats fun e stats => stats.epoch = e
  batchRecords : Table UInt64 BatchRecord fun i br => br.batchId = i
  batchCounter : Option UInt64
  currentSecondVerificationRate : Option UInt32
  currentThirdVerificationRate : Option UInt32
  verifierEpochCount : Store Addr UInt64
  secondVerifierEpochCount : Store Addr UInt64
  verifierEpochFee : Store Addr Int
  secondVerifierEpochFee : Store Addr Int
  dishonestCount : Store Addr UInt32
  tokenMismatch : Store String TokenMismatchRecord

structure State where
  params : Params
  ledger : Ledger
  book : Book
  world : World

namespace Book

def empty : Book where
  epochStats := ∅
  batchRecords := ∅
  batchCounter := none
  currentSecondVerificationRate := none
  currentThirdVerificationRate := none
  verifierEpochCount := ∅
  secondVerifierEpochCount := ∅
  verifierEpochFee := ∅
  secondVerifierEpochFee := ∅
  dishonestCount := ∅
  tokenMismatch := ∅

variable (b) (stats : EpochStats) (epoch : Int)

def getEpochStats : EpochStats :=
  match b.epochStats.get epoch with
  | some stats => stats
  | none => defaultEpochStats epoch

def setEpochStats : Book :=
  { b with epochStats := b.epochStats.set stats.epoch stats rfl }

theorem epoch_getEpochStats : (b.getEpochStats epoch).epoch = epoch := by
  unfold getEpochStats
  split
  · next stats h => exact b.epochStats.lawful epoch stats h
  · rfl

theorem getEpochStats_set : (b.setEpochStats stats).getEpochStats epoch =
      if stats.epoch = epoch then stats else b.getEpochStats epoch := by
  simp only [getEpochStats, setEpochStats, Table.get_set]
  by_cases h : stats.epoch = epoch <;> simp [h]

/-- The fees counted towards the audit fund of an epoch. -/
def fees : Int := (b.getEpochStats epoch).totalFees

/-- `GetNextBatchId`. -/
def getNextBatchId : UInt64 :=
  match b.batchCounter with
  | none => 1
  | some n => n + 1

/-- `GetCurrentSecondVerificationRate`. -/
def getCurrentSecondVerificationRate : UInt32 :=
  b.currentSecondVerificationRate.getD defaultSecondVerificationBaseRate

/-- `GetCurrentThirdVerificationRate`. -/
def getCurrentThirdVerificationRate : UInt32 :=
  b.currentThirdVerificationRate.getD defaultThirdVerificationBaseRate

variable {b}

/-- One more in a `uint64` counter. -/
def increment (counts : Store Addr UInt64) (a : Addr) : Store Addr UInt64 :=
  counts.put a ((counts.get a).getD 0 + 1)

/-- Add a positive amount to a total. -/
def addFee (fees : Store Addr Int) (a : Addr) (amount : Int) : Exec (Store Addr Int) := do
  let total ← MathInt.add ((fees.get a).getD 0) amount
  return fees.put a total

end Book

section EpochCounters
variable (env : Env)

/-- `IncrementVerifierEpochCount`. -/
def incrementVerifierEpochCount (b : Book) (verifierAddr : String) : Book :=
  match env.accAddressFromBech32 verifierAddr with
  | none => b
  | some a => { b with verifierEpochCount := Book.increment b.verifierEpochCount a }

/-- `IncrementSecondVerifierEpochCount`. -/
def incrementSecondVerifierEpochCount (b : Book) (secondVerifierAddr : String) : Book :=
  match env.accAddressFromBech32 secondVerifierAddr with
  | none => b
  | some a => { b with secondVerifierEpochCount := Book.increment b.secondVerifierEpochCount a }

/-- `IncrementVerifierEpochFee`. -/
def incrementVerifierEpochFee (b : Book) (verifierAddr : String) (amount : Int) : Exec Book :=
  if amount ≤ 0 then .ok b
  else
    match env.accAddressFromBech32 verifierAddr with
    | none => .ok b
    | some a => do
        let fees ← Book.addFee b.verifierEpochFee a amount
        return { b with verifierEpochFee := fees }

/-- `IncrementSecondVerifierEpochFee`. -/
def incrementSecondVerifierEpochFee (b : Book) (secondVerifierAddr : String) (amount : Int) :
    Exec Book :=
  if amount ≤ 0 then .ok b
  else
    match env.accAddressFromBech32 secondVerifierAddr with
    | none => .ok b
    | some a => do
        let fees ← Book.addFee b.secondVerifierEpochFee a amount
        return { b with secondVerifierEpochFee := fees }

end EpochCounters

namespace State

def getInferenceAccount (s : State) (a : Addr) : Option InferenceAccount :=
  s.ledger.getInferenceAccount a

def getSettledTask (s : State) (t : TaskId) : Option SettledTaskID := s.ledger.getSettledTask t

def hasFraudMark (s : State) (t : TaskId) : Bool := s.ledger.hasFraudMark t

/-- Replace the ledger by the result of an update. -/
def mapLedger (s : State) (f : Ledger → Ledger) : State := { s with ledger := f s.ledger }

variable (env : Env)

/-- What the bank holds for the module, in the default denom. -/
def moduleBalance (s : State) : Int := s.world.bank.balance env.settlementAccount defaultDenom

/-! ## quiet steps -/

/-- Bookkeeping: the ledger, the parameters, the counted fees, the settlement
account and the set of registered workers stay as they are. -/
structure Quiet (s s' : State) : Prop where
  ledger : s'.ledger = s.ledger
  params : s'.params = s.params
  fees : ∀ epoch, s'.book.fees epoch = s.book.fees epoch
  world : World.Frame env.toHost s.world s'.world

namespace Quiet

variable {env}

theorem refl (s : State) : Quiet env s s := ⟨rfl, rfl, fun _ => rfl, World.Frame.refl _⟩

theorem trans {s'' : State} (h : Quiet env s s') (h' : Quiet env s' s'') : Quiet env s s'' :=
  ⟨h'.ledger.trans h.ledger, h'.params.trans h.params,
    fun e => (h'.fees e).trans (h.fees e), h.world.trans h'.world⟩

/-- A step of the worker keeper. -/
theorem ofWorld {w : World} (h : World.Frame env.toHost s.world w) :
    Quiet env s { s with world := w } :=
  ⟨rfl, rfl, fun _ => rfl, h⟩

/-- A write to bookkeeping stores other than the epoch statistics. -/
theorem ofBook (h : b.epochStats = s.book.epochStats) : Quiet env s { s with book := b } :=
  ⟨rfl, rfl, fun e => by simp [Book.fees, Book.getEpochStats, h], World.Frame.refl _⟩

/-- A write to the statistics of an epoch that keeps its counted fees. -/
theorem ofStats {stats : EpochStats} (h : stats.totalFees = s.book.fees stats.epoch) :
    Quiet env s { s with book := s.book.setEpochStats stats } := by
  refine ⟨rfl, rfl, fun e => ?_, World.Frame.refl _⟩
  simp only [Book.fees, Book.getEpochStats_set]
  split
  · next he => rw [h, he, Book.fees]
  · rfl

theorem moduleBalance_eq (h : Quiet env s s') : s'.moduleBalance env = s.moduleBalance env := by
  simp [moduleBalance, h.world.settlementBalance]

end Quiet

/-! ## calls into the worker keeper -/

/-- `JailWorker`. -/
def jailWorker (ctx : Ctx) (s : State) (addr : Addr) : Exec State := do
  let w ← s.world.jailWorker env.toHost ctx.height addr
  return { s with world := w }

/-- Jail the worker behind a bech32 string, when it decodes. -/
def jailWorkerAt (ctx : Ctx) (s : State) (address : String) : Exec State :=
  match env.accAddressFromBech32 address with
  | none => .ok s
  | some a => s.jailWorker env ctx a

variable (s) (workerAddr : Addr)

/-- `GetDishonestCount`. -/
def getDishonestCount : UInt32 :=
  (s.book.dishonestCount.get workerAddr).getD 0

def setDishonestCount (count : UInt32) : State :=
  { s with book := { s.book with dishonestCount := s.book.dishonestCount.put workerAddr count } }

/-- `ResetDishonestCount`. -/
def resetDishonestCount : State :=
  { s with book := { s.book with dishonestCount := s.book.dishonestCount.erase workerAddr } }

variable {s}

/-- `IncrementDishonestCount`: at the threshold the worker is jailed and the
count starts again. -/
def incrementDishonestCount (ctx : Ctx) (s : State) (workerAddr : Addr) : Exec State := do
  let count := s.getDishonestCount workerAddr + 1
  let s := s.setDishonestCount workerAddr count
  if s.params.dishonestJailThreshold ≤ count then
    let s ← s.jailWorker env ctx workerAddr
    return s.resetDishonestCount workerAddr
  else return s

variable {env}

theorem quiet_jailWorker {addr : Addr} : OnValue (Quiet env s) (s.jailWorker env ctx addr) :=
  .after fun _ hw => .ok (Quiet.ofWorld (World.frame_jailWorker.get hw))

theorem quiet_jailWorkerAt : OnValue (Quiet env s) (s.jailWorkerAt env ctx address) := by
  unfold jailWorkerAt
  split
  · exact .ok (Quiet.refl s)
  · exact quiet_jailWorker

theorem quiet_resetDishonestCount (s : State) (workerAddr : Addr) :
    Quiet env s (s.resetDishonestCount workerAddr) := Quiet.ofBook rfl

theorem quiet_incrementDishonestCount {workerAddr : Addr} :
    OnValue (Quiet env s) (s.incrementDishonestCount env ctx workerAddr) := by
  have hset : Quiet env s (s.setDishonestCount workerAddr (s.getDishonestCount workerAddr + 1)) :=
    .ofBook rfl
  refine .either (quiet_jailWorker.bind fun s₁ hjail => .ok ?_) <| .ok hset
  exact hset.trans (hjail.trans (quiet_resetDishonestCount s₁ workerAddr))

theorem quiet_incrementSecondVerifierEpochCount (s : State) (address : String) :
    Quiet env s { s with book := incrementSecondVerifierEpochCount env s.book address } := by
  apply Quiet.ofBook
  unfold incrementSecondVerifierEpochCount
  split <;> rfl

theorem epochStats_incrementVerifierEpochFee : OnValue (fun b' => b'.epochStats = b.epochStats)
    (incrementVerifierEpochFee env b address amount) := by
  refine .either (.ok rfl) ?_
  split
  · exact .ok rfl
  · exact .after fun _ _ => .ok rfl

theorem epochStats_incrementSecondVerifierEpochFee :
    OnValue (fun b' => b'.epochStats = b.epochStats)
    (incrementSecondVerifierEpochFee env b address amount) := by
  refine .either (.ok rfl) ?_
  split
  · exact .ok rfl
  · exact .after fun _ _ => .ok rfl

end State

end

section
variable (env : Env)

/-! ## Merkle roots -/

def hashPair (a b : Bytes) : Bytes := env.sha256 (a ++ b)

/-- One level of the tree; an odd last node is paired with itself. -/
def hashLevel : List Bytes → List Bytes
  | [] => []
  | [a] => [hashPair env a a]
  | a :: b :: rest => hashPair env a b :: hashLevel rest

/-- Levels until one hash is left; every level of two or more is shorter than
the one below, so the number of leaves bounds the number of levels. -/
def hashLevels : Nat → List Bytes → Option Bytes
  | _, [] => none
  | _, [h] => some h
  | 0, _ => none
  | n + 1, hs => hashLevels n (hashLevel env hs)

/-- The root over leaf hashes; there is none over no leaves. -/
def merkleRoot (leaves : List Bytes) : Option Bytes := hashLevels env leaves.length leaves

def computeEntryHash (e : SettlementEntry) : Bytes := env.sha256 (env.marshalEntry e)

def computeReserveEntryHash (e : ReserveEntry) : Bytes := env.sha256 (env.marshalReserveEntry e)

def computeMerkleRoot (entries : List SettlementEntry) : Option Bytes :=
  merkleRoot env (entries.map (computeEntryHash env))

def computeReserveMerkleRoot (entries : List ReserveEntry) : Option Bytes :=
  merkleRoot env (entries.map (computeReserveEntryHash env))

def verifyMerkleRoot (root : Bytes) (entries : List SettlementEntry) : Bool :=
  computeMerkleRoot env entries == some root

def verifyReserveMerkleRoot (root : Bytes) (entries : List ReserveEntry) : Bool :=
  computeReserveMerkleRoot env entries == some root

/-! ## worker keys and signatures -/

def compressedSecp256k1PubkeyLen : Nat := 33

def aminoSecp256k1PubkeyPrefix : Bytes := [0xeb, 0x5a, 0xe9, 0x87, 0x21]

/-- `decodeBech32SecpPubkey`: the payload without its type bytes. -/
def decodeBech32SecpPubkey (s : String) : Option Bytes :=
  match env.bech32Payload s with
  | none => none
  | some payload =>
      if payload.length = aminoSecp256k1PubkeyPrefix.length + compressedSecp256k1PubkeyLen ∧
          payload.take aminoSecp256k1PubkeyPrefix.length = aminoSecp256k1PubkeyPrefix then
        some (payload.drop aminoSecp256k1PubkeyPrefix.length)
      else none

/-- Keep a decoding of the right length. -/
def asPubkey (b : Option Bytes) : Option Bytes :=
  b.filter fun b => b.length == compressedSecp256k1PubkeyLen

/-- `DecodeWorkerPubkey`: base64, then hex, then bech32, then the raw bytes. -/
def decodeWorkerPubkey (s : String) : Option Bytes :=
  if s = "" then none
  else
    (asPubkey (env.base64Decode s)).orElse fun _ =>
    (asPubkey (env.hexDecode s)).orElse fun _ =>
    (decodeBech32SecpPubkey env s).orElse fun _ =>
    asPubkey (some s.toUTF8.toList)

/-- `verifyProposerSigOnRoot`: the proposer is a registered worker whose key
signed the hash of the root. -/
def verifyProposerSigOnRoot (s : State) (proposerStr : String) (root sig : Bytes) :
    Except Err Unit :=
  if sig.isEmpty then .error (.errorf "missing proposer signature")
  else
    match env.accAddressFromBech32 proposerStr with
    | none => .error (.errorf "invalid proposer address")
    | some proposerAddr =>
        match (s.world.getWorkerPubkey proposerAddr).filter (· ≠ "") with
        | none =>
            .error (.errorf ("proposer pubkey not found: " ++ proposerStr ++
              " is not a registered worker"))
        | some pubkeyStr =>
            match decodeWorkerPubkey env pubkeyStr with
            | none =>
                .error (.errorf ("proposer pubkey for " ++ proposerStr ++
                  " is not a valid 33-byte secp256k1 key (raw/hex/base64)"))
            | some pubkey =>
                ensure (env.verifySignature pubkey (env.sha256 root) sig)
                  (.errorf "proposer signature verification failed")

variable (ctx : Ctx) (taskId : TaskId)

/-- What a worker signs about one task: the task id and a hash. -/
def taskSigPayload (hash : Bytes) : Bytes := env.sha256 (taskId ++ hash)

def receiptSigPayload (resultHash : Bytes) : Bytes :=
  taskSigPayload env taskId resultHash

def contentSigPayload (contentHash : Bytes) : Bytes :=
  taskSigPayload env taskId contentHash

/-- Big-endian bytes of a `uint32`. -/
def beUInt32 (n : UInt32) : Bytes :=
  [(n >>> 24).toUInt8, (n >>> 16).toUInt8, (n >>> 8).toUInt8, n.toUInt8]

/-- `SecondVerificationEntrySigBytes`. -/
def secondVerificationEntrySigBytes (entry : SecondVerificationBatchEntry)
    (verifierPubkey : Bytes) : Bytes :=
  env.sha256 (entry.taskId ++ [if entry.pass then 1 else 0] ++ verifierPubkey ++
    entry.logitsHash ++ beUInt32 entry.verifiedInputTokens ++
    beUInt32 entry.verifiedOutputTokens)

/-! ## the audit draw -/

/-- The big-endian value of a byte string. -/
def beValue (b : Bytes) : Nat := b.foldl (fun n x => n * 256 + x.toNat) 0

/-- The hash of the task id and the block hash falls below the rate, in
thousandths of the hash range. -/
def shouldTrigger (rate : UInt32) : Bool :=
  let blockHash := if ctx.headerHash.isEmpty then ctx.lastBlockIdHash else ctx.headerHash
  beValue (env.sha256 (taskId ++ blockHash)) < 2 ^ 256 * rate.toNat / 1000

def shouldTriggerSecondVerification (auditRate : UInt32) : Bool :=
  shouldTrigger env ctx taskId auditRate

def shouldTriggerThirdVerification (thirdVerificationRate : UInt32) : Bool :=
  shouldTrigger env ctx taskId thirdVerificationRate

end

/-! ## resolving the counts -/

structure TokenCountResolution where
  inputTokens : UInt32
  outputTokens : UInt32
  workerDishonest : Bool
  lowConfidence : Bool
  deriving DecidableEq, Repr

/-- `medianUint32`: of two values the average, of none zero. -/
def medianUint32 (vals : List UInt32) : UInt32 :=
  match vals.insertionSort (· ≤ ·) with
  | [] => 0
  | [a, b] => (a + b) / 2
  | sorted => sorted.getD (vals.length / 2) 0

/-- `effectiveTolerance`: the larger of the absolute and the relative one. -/
def effectiveTolerance (count absTol pct : UInt32) : UInt32 :=
  let pctTol := count * pct / 100
  if absTol < pctTol then pctTol else absTol

/-- The distance of two counts. -/
def tokenDelta (a b : UInt32) : UInt32 := if b < a then a - b else b - a

/-- `resolveTokenPair`: the worker's count within the tolerance of the median,
else the median, with the worker marked dishonest. -/
def resolveTokenPair (nWorker nMedian tolerance : UInt32) : UInt32 × Bool :=
  if nMedian = 0 then (nWorker, false)
  else if tokenDelta nWorker nMedian ≤ tolerance then (nWorker, false)
  else (nMedian, true)

/-- `ResolveTokenCounts`. -/
def resolveTokenCounts (entry : SettlementEntry) (tolerance tolerancePct : UInt32) :
    TokenCountResolution :=
  let verifierOuts := (entry.verifierResults.map (·.verifiedOutputTokens)).filter (0 < ·)
  let nMedianOut := medianUint32 verifierOuts
  let verifierIns := (entry.verifierResults.map (·.verifiedInputTokens)).filter (0 < ·)
  let nMedianIn := medianUint32 verifierIns
  let out := resolveTokenPair entry.workerOutputTokens nMedianOut
    (effectiveTolerance nMedianOut tolerance tolerancePct)
  let inp := resolveTokenPair entry.workerInputTokens nMedianIn
    (effectiveTolerance nMedianIn tolerance tolerancePct)
  { inputTokens := inp.1
    outputTokens := out.1
    workerDishonest := out.2
    lowConfidence := decide (verifierOuts.length < 3) }

/-! ## the price -/

/-- `CalculatePerTokenFee`: capped at `maxFee`, which is also the answer when
the 64-bit arithmetic overflows. -/
def calculatePerTokenFee (inputTokens outputTokens : UInt32)
    (feePerInput feePerOutput maxFee : UInt64) : UInt64 :=
  let inputCost := inputTokens.toUInt64 * feePerInput
  if 0 < feePerInput && inputCost / feePerInput != inputTokens.toUInt64 then maxFee
  else
    let outputCost := outputTokens.toUInt64 * feePerOutput
    if 0 < feePerOutput && outputCost / feePerOutput != outputTokens.toUInt64 then maxFee
    else
      let actualFee := inputCost + outputCost
      if actualFee < inputCost then maxFee
      else if maxFee < actualFee then maxFee
      else actualFee

/-- The check of the source catches exactly the products that overflow. -/
theorem mulChecked_iff (a b : UInt64) :
    (0 < b && a * b / b != a) = true ↔ 2 ^ 64 ≤ a.toNat * b.toNat := by
  have hmul := UInt64.toNat_mul a b
  simp only [Bool.and_eq_true, decide_eq_true_eq, bne_iff_ne, ne_eq, ← UInt64.toNat_inj,
    UInt64.toNat_div, UInt64.lt_iff_toNat_lt, hmul]
  constructor
  · rintro ⟨hpos, hne⟩
    by_contra hfits
    rw [Nat.mod_eq_of_lt (by omega)] at hne
    exact hne (Nat.mul_div_cancel _ hpos)
  · intro hover
    have hpos : 0 < b.toNat := by grind
    refine ⟨hpos, fun heq => ?_⟩
    have hle := Nat.div_mul_le_self (a.toNat * b.toNat % 2 ^ 64) b.toNat
    rw [heq] at hle
    have hlt := Nat.mod_lt (a.toNat * b.toNat) (show 0 < 2 ^ 64 by decide)
    omega

/-- **The price** is the cost of the tokens, capped. -/
theorem calculatePerTokenFee_toNat (inputTokens outputTokens : UInt32)
    (feePerInput feePerOutput maxFee : UInt64) :
    (calculatePerTokenFee inputTokens outputTokens feePerInput feePerOutput maxFee).toNat =
    min (inputTokens.toNat * feePerInput.toNat + outputTokens.toNat * feePerOutput.toNat)
    maxFee.toNat := by
  have hcap := maxFee.toNat_lt
  have hin := UInt64.toNat_mul inputTokens.toUInt64 feePerInput
  have hout := UInt64.toNat_mul outputTokens.toUInt64 feePerOutput
  rw [UInt32.toNat_toUInt64] at hin hout
  unfold calculatePerTokenFee
  dsimp only
  split
  · next hover =>
    rw [mulChecked_iff, UInt32.toNat_toUInt64] at hover
    omega
  · next hfits =>
    rw [mulChecked_iff, UInt32.toNat_toUInt64, Nat.not_le] at hfits
    split
    · next hover =>
      rw [mulChecked_iff, UInt32.toNat_toUInt64] at hover
      omega
    · next hfits' =>
      rw [mulChecked_iff, UInt32.toNat_toUInt64, Nat.not_le] at hfits'
      have hsum := UInt64.toNat_add (inputTokens.toUInt64 * feePerInput)
        (outputTokens.toUInt64 * feePerOutput)
      simp only [UInt64.lt_iff_toNat_lt, hsum, hin]
      split
      · omega
      · grind

/-- The price never exceeds the cap. -/
theorem calculatePerTokenFee_le (inputTokens outputTokens : UInt32)
    (feePerInput feePerOutput maxFee : UInt64) :
    calculatePerTokenFee inputTokens outputTokens feePerInput feePerOutput maxFee ≤ maxFee := by
  rw [UInt64.le_iff_toNat_le, calculatePerTokenFee_toNat]
  exact min_le_right _ _

/-! ## worker-verifier pairs -/

variable (params : Params) (b : Book) (workerAddr verifierAddr : String)

/-- The store key of a pair. -/
def tokenMismatchKey : String :=
  workerAddr ++ "|" ++ verifierAddr

/-- `GetTokenMismatchRecord`. -/
def getTokenMismatchRecord : TokenMismatchRecord :=
  (b.tokenMismatch.get (tokenMismatchKey workerAddr verifierAddr)).getD
    ⟨workerAddr, verifierAddr, 0, 0⟩

/-- `UpdateTokenMismatchPair`: the window is halved when it is full. -/
def updateTokenMismatchPair (isMismatch : Bool) : Book :=
  let rec0 := getTokenMismatchRecord b workerAddr verifierAddr
  let totalTasks := rec0.totalTasks + 1
  let mismatchCount := if isMismatch then rec0.mismatchCount + 1 else rec0.mismatchCount
  let full := 0 < params.tokenMismatchLookback && params.tokenMismatchLookback ≤ totalTasks
  let rec1 := { rec0 with
    totalTasks := if full then totalTasks / 2 else totalTasks
    mismatchCount := if full then mismatchCount / 2 else mismatchCount }
  { b with tokenMismatch :=
      b.tokenMismatch.put (tokenMismatchKey rec1.workerAddress rec1.verifierAddress) rec1 }

variable (entry : SettlementEntry) (resolved : UInt32)

/-- Does a verifier's output count deviate from the resolved one? -/
def isTokenMismatch (v : VerifierResult) : Bool :=
  if 0 < v.verifiedOutputTokens then
    let tol := effectiveTolerance resolved params.tokenCountTolerance params.tokenCountTolerancePct
    let delta := tokenDelta v.verifiedOutputTokens resolved
    let devThreshold := resolved * params.tokenMismatchDeviationPct / 100
    tol < delta && devThreshold < delta
  else false

/-- The pair updates of one settled entry. -/
def updateTokenMismatchPairs : Book :=
  entry.verifierResults.foldl
    (fun b v => updateTokenMismatchPair params b entry.workerAddress v.address
      (isTokenMismatch params resolved v)) b

/-- The rows under the prefix of a worker, as the prefix iterator meets them. -/
def tokenMismatchRecordsOf : List TokenMismatchRecord :=
  (b.tokenMismatch.entries.filter fun r =>
    (workerAddr ++ "|").toList.isPrefixOf r.1.toList).map Prod.snd

/-- `CalculateWorkerAuditBoost`; the ratio divides by a stored count, which
panics at zero. -/
def calculateWorkerAuditBoost : Exec UInt32 := do
  let maxPairRatio ← (tokenMismatchRecordsOf b workerAddr).foldlM
    (fun (best : UInt32) r =>
      if r.totalTasks < params.tokenMismatchPairMinSamples then .ok best
      else if r.totalTasks = 0 then .error .divisionByZero
      else
        let ratio := r.mismatchCount * 100 / r.totalTasks
        .ok (if best < ratio then ratio else best))
    0
  if 50 < maxPairRatio then return params.tokenMismatchSecondVerificationWeight
  else if 30 < maxPairRatio then return params.tokenMismatchSecondVerificationWeight / 2
  else return 0

theorem epochStats_updateTokenMismatchPairs :
    (updateTokenMismatchPairs params b entry resolved).epochStats = b.epochStats := by
  unfold updateTokenMismatchPairs
  induction entry.verifierResults generalizing b with
  | nil => rfl
  | cons _ _ ih =>
    rw [List.foldl_cons, ih]
    rfl

end FunaiChain.Settlement
