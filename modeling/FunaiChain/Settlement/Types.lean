import FunaiChain.Sdk

/-!
# FunaiChain.Settlement.Types

The data of `x/settlement/types`: task and settlement statuses, the stored
records, the parameters, the errors and the messages with their stateless
checks (`ValidateBasic`).  Addresses inside entries and messages are the bech32
strings the source keeps, decoded only where the keeper decodes them; that of an
`InferenceAccount` is kept decoded, since the keeper writes it from a decoded
address and reads it back only to build the store key.

The `Ledger` has the stores that decide who is charged, paid or reserved for.  A
row can only be written under the key it carries (`FunaiChain.Lib.Table`), and a
queue only holds entries of its own tier.  The field `log` is a ghost: it records
the reservations, charges and payouts of a run, newest first, and no function of
the model reads it.
-/

namespace FunaiChain.Settlement

section
variable {p : Params}

abbrev TaskId := Bytes

/-- `DefaultDenom`. -/
def defaultDenom : String := "ufai"

/-! ## statuses -/

inductive TaskStatus
  | pending
  | settled
  | fraud
  | failSettled
  | verified
  | cleared
  | pendingSecondVerification
  | pendingThirdVerification
  | failed
  deriving DecidableEq, Repr

/-- The outcome reported in an entry; the wire type is a `uint32` of which
only two values have a name. -/
inductive SettlementStatus
  | success
  | fail
  | other (code : UInt32)
  deriving DecidableEq, Repr

/-! ## stored records -/

structure InferenceAccount where
  address : Addr
  balance : Coin
  frozenBalance : Coin
  deriving DecidableEq, Repr

namespace InferenceAccount

/-- `AvailableBalance`: the balance minus the frozen part, floored at zero. -/
def availableBalance (ia : InferenceAccount) : Exec Coin :=
  if ia.frozenBalance.isZero || !ia.frozenBalance.isValid then .ok ia.balance
  else do
    if ← ia.balance.isLT ia.frozenBalance then Coin.new ia.balance.denom 0
    else ia.balance.sub ia.frozenBalance

end InferenceAccount

structure VerifierResult where
  address : String
  pass : Bool
  signature : Bytes
  logitsHash : Bytes
  verifiedInputTokens : UInt32
  verifiedOutputTokens : UInt32
  deriving DecidableEq, Repr

/-- One task inside a `MsgBatchSettlement`. -/
structure SettlementEntry where
  taskId : TaskId
  userAddress : String
  workerAddress : String
  verifierResults : List VerifierResult
  fee : Coin
  status : SettlementStatus
  expireBlock : Int
  modelId : String
  latencyMs : UInt64
  userSigHash : Bytes
  workerSigHash : Bytes
  verifySigHashes : List Bytes
  resultCount : UInt32
  feePerInputToken : UInt64
  feePerOutputToken : UInt64
  maxFee : Coin
  workerInputTokens : UInt32
  workerOutputTokens : UInt32
  dispatchRank : UInt32
  acceptedAtMs : UInt64
  receiptAtMs : UInt64
  deriving DecidableEq, Repr

namespace SettlementEntry

def isPerToken (e : SettlementEntry) : Bool :=
  0 < e.feePerInputToken && 0 < e.feePerOutputToken

/-- The coin whose denom the batch loop checks, and which bounds the charge:
the price cap of a per-token entry, the fixed fee of any other. -/
def nominal (e : SettlementEntry) : Coin := if e.isPerToken then e.maxFee else e.fee

end SettlementEntry

structure FrozenTaskMeta where
  taskId : TaskId
  userAddress : String
  workerAddress : String
  maxFee : UInt64
  expireBlock : Int
  deriving DecidableEq, Repr

structure TokenMismatchRecord where
  workerAddress : String
  verifierAddress : String
  totalTasks : UInt32
  mismatchCount : UInt32
  deriving DecidableEq, Repr

/-- The dedup record of a task id. -/
structure SettledTaskID where
  taskId : TaskId
  status : TaskStatus
  expireBlock : Int
  settledAt : Int
  workerAddress : String
  originalVerifiers : List String
  fee : Coin
  userAddress : String
  deriving DecidableEq, Repr

structure BatchRecord where
  batchId : UInt64
  proposer : String
  merkleRoot : Bytes
  resultCount : UInt32
  totalFees : Coin
  settledAt : Int
  deriving DecidableEq, Repr

/-- The votes of the second verifiers of one task. -/
structure SecondVerificationRecord where
  taskId : TaskId
  epoch : Int
  secondVerifierAddresses : List String
  results : List Bool
  processedAt : Int
  secondVerifierInputTokens : List UInt32
  secondVerifierOutputTokens : List UInt32
  deriving DecidableEq, Repr

structure SecondVerificationPendingTask where
  taskId : TaskId
  originalStatus : SettlementStatus
  submittedAt : Int
  userAddress : String
  workerAddress : String
  verifierAddresses : List String
  verifierVotes : List Bool
  fee : Coin
  expireBlock : Int
  isThirdVerification : Bool
  feePerInputToken : UInt64
  feePerOutputToken : UInt64
  maxFee : Coin
  settledOutputTokens : UInt32
  settledInputTokens : UInt32
  deriving DecidableEq, Repr

structure EpochStats where
  epoch : Int
  totalSettled : UInt64
  failSettled : UInt64
  secondVerificationTotal : UInt64
  auditFail : UInt64
  auditOverturn : UInt64
  thirdVerificationTotal : UInt64
  thirdVerificationOverturn : UInt64
  totalFees : Int
  secondVerificationPersonCount : UInt64
  verificationCount : UInt64
  deriving DecidableEq, Repr

/-- `DefaultEpochStats`. -/
def defaultEpochStats (epoch : Int) : EpochStats where
  epoch := epoch
  totalSettled := 0
  failSettled := 0
  secondVerificationTotal := 0
  auditFail := 0
  auditOverturn := 0
  thirdVerificationTotal := 0
  thirdVerificationOverturn := 0
  totalFees := 0
  secondVerificationPersonCount := 0
  verificationCount := 0

/-! ## errors -/

/-- The registered errors of the module that the keeper returns. -/
inductive Sentinel
  | accountNotFound
  | insufficientBalance
  | invalidSignature
  | fraudMarked
  | invalidSettlement
  | wrongDenom
  deriving DecidableEq, Repr

abbrev Err := ModuleErr Sentinel

def hexDigit (n : UInt8) : Char :=
  if n < 10 then Char.ofNat (48 + n.toNat) else Char.ofNat (87 + n.toNat)

/-- `hex.EncodeToString`, and the verb `%x` of a byte slice. -/
def hexEncode (b : Bytes) : String :=
  String.ofList (b.flatMap fun x : UInt8 => [hexDigit (x >>> 4), hexDigit (x &&& 15)])

/-! ## parameters -/

structure Params where
  signatureExpireMax : Int
  executorFeeRatio : UInt32
  verifierFeeRatio : UInt32
  multiVerificationFundRatio : UInt32
  failSettlementFeeRatio : UInt32
  secondVerifierCount : UInt32
  secondVerificationMatchThreshold : UInt32
  taskCleanupBuffer : Int
  logitsSamplePositions : UInt32
  logitsMatchRequired : UInt32
  secondVerificationBaseRate : UInt32
  secondVerificationRateMin : UInt32
  secondVerificationRateMax : UInt32
  secondVerificationTimeout : Int
  thirdVerificationBaseRate : UInt32
  thirdVerificationRateMin : UInt32
  thirdVerificationRateMax : UInt32
  thirdVerificationTimeout : Int
  tokenCountTolerance : UInt32
  dishonestJailThreshold : UInt32
  perTokenBillingEnabled : Bool
  tokenCountTolerancePct : UInt32
  tokenMismatchSecondVerificationWeight : UInt32
  tokenMismatchLookback : UInt32
  tokenMismatchDeviationPct : UInt32
  tokenMismatchPairMinSamples : UInt32
  fraudWindowBlocks : UInt64
  deriving DecidableEq, Repr

def defaultSecondVerificationBaseRate : UInt32 := 100
def defaultThirdVerificationBaseRate : UInt32 := 10

namespace Params

/-- `DefaultParams`. -/
def default : Params where
  signatureExpireMax := 17280
  executorFeeRatio := 850
  verifierFeeRatio := 120
  multiVerificationFundRatio := 30
  failSettlementFeeRatio := 150
  secondVerifierCount := 3
  secondVerificationMatchThreshold := 2
  taskCleanupBuffer := 1000
  logitsSamplePositions := 5
  logitsMatchRequired := 4
  secondVerificationBaseRate := defaultSecondVerificationBaseRate
  secondVerificationRateMin := 50
  secondVerificationRateMax := 300
  secondVerificationTimeout := 8640
  thirdVerificationBaseRate := defaultThirdVerificationBaseRate
  thirdVerificationRateMin := 5
  thirdVerificationRateMax := 50
  thirdVerificationTimeout := 17280
  tokenCountTolerance := 2
  dishonestJailThreshold := 3
  perTokenBillingEnabled := false
  tokenCountTolerancePct := 2
  tokenMismatchSecondVerificationWeight := 20
  tokenMismatchLookback := 100
  tokenMismatchDeviationPct := 20
  tokenMismatchPairMinSamples := 5
  fraudWindowBlocks := 17280

/-- The checks of `Validate`, in its order; the first that fails is the error.
The three fee ratios are added as `uint32`. -/
def checks (p : Params) : List (Bool × String) :=
  [ (decide (0 < p.signatureExpireMax),
      "signature_expire_max must be positive, got " ++ toString p.signatureExpireMax),
    (p.executorFeeRatio != 0, "executor_fee_ratio must be positive"),
    (p.verifierFeeRatio != 0, "verifier_fee_ratio must be positive"),
    (p.multiVerificationFundRatio != 0, "multi_verification_fund_ratio must be positive"),
    (p.executorFeeRatio + p.verifierFeeRatio + p.multiVerificationFundRatio == 1000,
      "fee ratios (executor+verifier+audit) must sum to 1000 (per-mille), got " ++
        toString (p.executorFeeRatio + p.verifierFeeRatio + p.multiVerificationFundRatio)),
    (p.failSettlementFeeRatio != 0 && p.failSettlementFeeRatio ≤ 1000,
      "fail_settlement_fee_ratio must be between 1 and 1000, got " ++
        toString p.failSettlementFeeRatio),
    (p.secondVerifierCount != 0, "second_verifier_count must be positive"),
    (p.secondVerificationMatchThreshold != 0 &&
        p.secondVerificationMatchThreshold ≤ p.secondVerifierCount,
      "second_verification_match_threshold must be between 1 and second_verifier_count"),
    (decide (0 ≤ p.taskCleanupBuffer),
      "task_cleanup_buffer cannot be negative, got " ++ toString p.taskCleanupBuffer),
    (p.logitsSamplePositions != 0, "logits_sample_positions must be positive"),
    (p.logitsMatchRequired != 0 && p.logitsMatchRequired ≤ p.logitsSamplePositions,
      "logits_match_required must be between 1 and logits_sample_positions"),
    (p.secondVerificationBaseRate != 0 && p.secondVerificationBaseRate ≤ 1000,
      "second_verification_base_rate must be between 1 and 1000, got " ++
        toString p.secondVerificationBaseRate),
    (p.secondVerificationRateMin ≤ p.secondVerificationRateMax,
      "second_verification_rate_min (" ++ toString p.secondVerificationRateMin ++
        ") must not exceed second_verification_rate_max (" ++
        toString p.secondVerificationRateMax ++ ")"),
    (decide (0 < p.secondVerificationTimeout),
      "second_verification_timeout must be positive, got " ++
        toString p.secondVerificationTimeout),
    (p.thirdVerificationBaseRate ≤ 1000, "third_verification_base_rate must be <= 1000, got " ++
        toString p.thirdVerificationBaseRate),
    (p.thirdVerificationRateMin ≤ p.thirdVerificationRateMax,
      "third_verification_rate_min (" ++ toString p.thirdVerificationRateMin ++
        ") must not exceed third_verification_rate_max (" ++
        toString p.thirdVerificationRateMax ++ ")"),
    (decide (0 < p.thirdVerificationTimeout), "third_verification_timeout must be positive, got " ++
        toString p.thirdVerificationTimeout),
    (p.dishonestJailThreshold != 0, "dishonest_jail_threshold must be positive"),
    (p.fraudWindowBlocks != 0, "fraud_window_blocks must be positive") ]

/-- `Params.Validate`: the text of the first failing check. -/
def validate (p : Params) : Option String :=
  (p.checks.find? fun c => !c.1).map Prod.snd

section
variable (h : p.validate = none)
include h

/-- Valid parameters pass every check. -/
theorem check_of_valid (i : Nat) {c : Bool × String} (hc : p.checks[i]? = some c) : c.1 = true := by
  have hnone : p.checks.find? (fun c => !c.1) = none := Option.map_eq_none_iff.mp h
  simpa using List.find?_eq_none.mp hnone c (List.mem_of_getElem? hc)

theorem verifierFeeRatio_pos : 0 < p.verifierFeeRatio.toNat := by
  have hcheck : (p.verifierFeeRatio != 0) = true := check_of_valid h 2 rfl
  have hne : p.verifierFeeRatio ≠ 0 := by simpa using hcheck
  exact Nat.pos_of_ne_zero fun h => hne (UInt32.toNat_inj.mp h)

theorem failRatio_le : p.failSettlementFeeRatio.toNat ≤ 1000 := by
  have hcheck : (p.failSettlementFeeRatio != 0 && p.failSettlementFeeRatio ≤ 1000) = true :=
    check_of_valid h 5 rfl
  simp only [Bool.and_eq_true, decide_eq_true_eq] at hcheck
  exact UInt32.le_iff_toNat_le.mp hcheck.2

theorem secondVerifierCount_ne_zero : p.secondVerifierCount ≠ 0 := by
  have hcheck : (p.secondVerifierCount != 0) = true := check_of_valid h 6 rfl
  simpa using hcheck

end

/-- The default parameters pass their own checks. -/
theorem default_valid : default.validate = none := by decide

end Params

/-! ## messages -/

structure MsgDeposit where
  creator : String
  amount : Coin
  deriving DecidableEq, Repr

structure MsgWithdraw where
  creator : String
  amount : Coin
  deriving DecidableEq, Repr

structure MsgBatchSettlement where
  proposer : String
  merkleRoot : Bytes
  entries : List SettlementEntry
  proposerSig : Bytes
  resultCount : UInt32
  deriving DecidableEq, Repr

/-- One reservation: freeze `maxFee` of `userAddress` for `taskId`. -/
structure ReserveEntry where
  userAddress : String
  taskId : TaskId
  maxFee : Coin
  expireBlock : Int
  deriving DecidableEq, Repr

structure MsgBatchReserve where
  proposer : String
  merkleRoot : Bytes
  entries : List ReserveEntry
  proposerSig : Bytes
  resultCount : UInt32
  deriving DecidableEq, Repr

structure MsgFraudProof where
  reporter : String
  taskId : TaskId
  workerAddress : String
  receiptResultHash : Bytes
  workerReceiptSig : Bytes
  receivedOutputHash : Bytes
  workerContentSig : Bytes
  deriving DecidableEq, Repr

structure MsgSecondVerificationResult where
  secondVerifier : String
  taskId : TaskId
  epoch : Int
  pass : Bool
  logitsHash : Bytes
  verifiedInputTokens : UInt32
  verifiedOutputTokens : UInt32
  deriving DecidableEq, Repr

structure SecondVerificationBatchEntry where
  taskId : TaskId
  secondVerifier : String
  epoch : Int
  pass : Bool
  logitsHash : Bytes
  verifiedInputTokens : UInt32
  verifiedOutputTokens : UInt32
  signature : Bytes
  deriving DecidableEq, Repr

structure MsgSecondVerificationResultBatch where
  proposer : String
  entries : List SecondVerificationBatchEntry
  deriving DecidableEq, Repr

inductive Msg
  | deposit (msg : MsgDeposit)
  | withdraw (msg : MsgWithdraw)
  | batchSettlement (msg : MsgBatchSettlement)
  | batchReserve (msg : MsgBatchReserve)
  | fraudProof (msg : MsgFraudProof)
  | secondVerificationResult (msg : MsgSecondVerificationResult)
  | secondVerificationResultBatch (msg : MsgSecondVerificationResultBatch)
  deriving DecidableEq, Repr

/-! ## stateless checks -/

/-- `uint32(len(xs))`. -/
def lenUInt32 {α : Type} (xs : List α) : UInt32 := UInt32.ofNat xs.length

def maxBatchSettlementEntries : Nat := 1300
def maxSecondVerificationBatchEntries : Nat := 256

section ValidateBasic
variable (host : Host)

def checkAddress (s text : String) : Except Err Unit :=
  ensure (host.accAddressFromBech32 s).isSome (.errorf text)

/-- The shared checks of a deposit and a withdrawal. -/
def checkAmount (creator : String) (amount : Coin) : Except Err Unit := do
  checkAddress host creator "invalid creator address"
  ensure (amount.isValid && !amount.isZero)
    (.wrap .insufficientBalance "amount must be positive and valid")
  ensure (amount.denom == defaultDenom) (.wrap .wrongDenom ("got " ++ amount.denom))

def MsgDeposit.validateBasic (msg : MsgDeposit) : Except Err Unit :=
  checkAmount host msg.creator msg.amount

def MsgWithdraw.validateBasic (msg : MsgWithdraw) : Except Err Unit :=
  checkAmount host msg.creator msg.amount

def checkResultCount {α : Type} (declared : UInt32) (entries : List α) : Except Err Unit :=
  ensure (declared == lenUInt32 entries)
    (.wrap .invalidSettlement ("result_count mismatch: declared " ++ toString declared ++
      ", actual " ++ toString entries.length))

def MsgBatchSettlement.validateBasic (msg : MsgBatchSettlement) : Except Err Unit := do
  checkAddress host msg.proposer "invalid proposer address"
  ensure (!msg.merkleRoot.isEmpty) (.wrap .invalidSettlement "merkle_root cannot be empty")
  ensure (!msg.entries.isEmpty) (.wrap .invalidSettlement "entries cannot be empty")
  ensure (decide (msg.entries.length ≤ maxBatchSettlementEntries))
    (.wrap .invalidSettlement ("batch size " ++ toString msg.entries.length ++
      " exceeds max " ++ toString maxBatchSettlementEntries))
  ensure (!msg.proposerSig.isEmpty) (.wrap .invalidSignature "proposer_sig cannot be empty")
  checkResultCount msg.resultCount msg.entries

/-- As for a settlement batch, with no bound on the number of entries. -/
def MsgBatchReserve.validateBasic (msg : MsgBatchReserve) : Except Err Unit := do
  checkAddress host msg.proposer "invalid proposer address"
  ensure (!msg.merkleRoot.isEmpty) (.wrap .invalidSettlement "merkle_root cannot be empty")
  ensure (!msg.entries.isEmpty) (.wrap .invalidSettlement "entries cannot be empty")
  ensure (!msg.proposerSig.isEmpty) (.wrap .invalidSignature "proposer_sig cannot be empty")
  checkResultCount msg.resultCount msg.entries

/-- A hash field must have the 32 bytes of SHA-256. -/
def checkHash (field : String) (b : Bytes) : Except Err Unit :=
  ensure (b.length == 32)
    (.wrap .invalidSettlement (field ++ " must be 32 bytes, got " ++ toString b.length))

def MsgFraudProof.validateBasic (msg : MsgFraudProof) : Except Err Unit := do
  checkAddress host msg.reporter "invalid reporter address"
  checkHash "task_id" msg.taskId
  checkAddress host msg.workerAddress "invalid worker address"
  checkHash "receipt_result_hash" msg.receiptResultHash
  ensure (!msg.workerReceiptSig.isEmpty)
    (.wrap .invalidSignature "worker_receipt_sig cannot be empty")
  checkHash "received_output_hash" msg.receivedOutputHash
  ensure (!msg.workerContentSig.isEmpty)
    (.wrap .invalidSignature "worker_content_sig cannot be empty")

/-- The checks of one audit result; in a batch each text names its entry. -/
def checkAuditResult (at_ : String) (secondVerifier : String) (taskId : TaskId) (epoch : Int)
    (logitsHash : Bytes) : Except Err Unit := do
  checkAddress host secondVerifier (at_ ++ "invalid second_verifier address")
  ensure (!taskId.isEmpty) (.wrap .invalidSettlement (at_ ++ "task_id cannot be empty"))
  ensure (decide (0 ≤ epoch)) (.wrap .invalidSettlement (at_ ++ "epoch cannot be negative"))
  ensure (!logitsHash.isEmpty) (.wrap .invalidSettlement (at_ ++ "logits_hash cannot be empty"))

def MsgSecondVerificationResult.validateBasic (msg : MsgSecondVerificationResult) :
    Except Err Unit :=
  checkAuditResult host "" msg.secondVerifier msg.taskId msg.epoch msg.logitsHash

def SecondVerificationBatchEntry.validateBasic (i : Nat) (e : SecondVerificationBatchEntry) :
    Except Err Unit := do
  let at_ := "entry " ++ toString i ++ ": "
  checkAuditResult host at_ e.secondVerifier e.taskId e.epoch e.logitsHash
  ensure (!e.signature.isEmpty) (.wrap .invalidSettlement (at_ ++ "signature cannot be empty"))

def MsgSecondVerificationResultBatch.validateBasic (msg : MsgSecondVerificationResultBatch) :
    Except Err Unit := do
  checkAddress host msg.proposer "invalid proposer address"
  ensure (!msg.entries.isEmpty)
    (.wrap .invalidSettlement "batch must contain at least one entry")
  ensure (decide (msg.entries.length ≤ maxSecondVerificationBatchEntries))
    (.wrap .invalidSettlement ("batch size " ++ toString msg.entries.length ++
      " exceeds max " ++ toString maxSecondVerificationBatchEntries))
  msg.entries.zipIdx.forM fun (e, i) => e.validateBasic host i

def Msg.validateBasic : Msg → Except Err Unit
  | .deposit msg => msg.validateBasic host
  | .withdraw msg => msg.validateBasic host
  | .batchSettlement msg => msg.validateBasic host
  | .batchReserve msg => msg.validateBasic host
  | .fraudProof msg => msg.validateBasic host
  | .secondVerificationResult msg => msg.validateBasic host
  | .secondVerificationResultBatch msg => msg.validateBasic host

/-- `GetSigners`: every message has one. -/
def Msg.signer : Msg → String
  | .deposit msg => msg.creator
  | .withdraw msg => msg.creator
  | .batchSettlement msg => msg.proposer
  | .batchReserve msg => msg.proposer
  | .fraudProof msg => msg.reporter
  | .secondVerificationResult msg => msg.secondVerifier
  | .secondVerificationResultBatch msg => msg.proposer

variable {host}

/-- A deposit or withdrawal that passes its checks carries a positive amount
of the default denom. -/
theorem checkAmount_ok {creator : String} {amount : Coin}
    (h : checkAmount host creator amount = .ok ()) :
    0 < amount.amount ∧ amount.denom = defaultDenom := by
  simp only [checkAmount, bind_eq_ok, ensure_eq_ok, Bool.and_eq_true] at h
  obtain ⟨-, -, -, ⟨hvalid, hzero⟩, hdenom⟩ := h
  simp only [Coin.isValid, Coin.isZero, Bool.and_eq_true, decide_eq_true_eq] at hvalid hzero
  simp only [Bool.not_eq_true', decide_eq_false_iff_not] at hzero
  exact ⟨by omega, by simpa using hdenom⟩

end ValidateBasic

end

open Std
variable {l : Ledger} {t : TaskId}

/-! ## keys ordered by height -/

/-- A block height followed by a task id, as in the timeout and expiry
indexes. -/
structure HeightKey where
  height : Int
  taskId : TaskId
  deriving DecidableEq, Repr

namespace HeightKey

/-- Heights are stored as big-endian `uint64`, so a negative one sorts last. -/
instance : Ord HeightKey :=
  ⟨compareLex (compareOn fun k => decide (k.height < 0))
    (compareLex (compareOn height) (compareOn taskId))⟩

instance : TransOrd HeightKey :=
  inferInstanceAs (TransCmp (compareLex (compareOn fun k => decide (k.height < 0))
    (compareLex (compareOn height) (compareOn taskId))))

instance : LawfulEqOrd HeightKey where
  compare_self := fun {_} => ReflCmp.compare_self
  eq_of_compare := by
    intro a b h
    have h : compareLex (compareOn fun k => decide (k.height < 0))
        (compareLex (compareOn height) (compareOn taskId)) a b = .eq := h
    simp only [compareLex, compareOn, Ordering.then_eq_eq, Std.compare_eq_iff_eq] at h
    obtain ⟨-, hheight, htask⟩ := h
    cases a
    cases b
    simp_all

end HeightKey

/-! ## the ghost log -/

/-- A settled task: `user` was debited `paid` of the `due` fee, of which the
executor and the verifiers received their parts; the rest was kept back. -/
structure Payment where
  task : TaskId
  user : Addr
  due : Int
  paid : Int
  executor : Int
  verifiers : Int
  deriving DecidableEq, Repr

namespace Payment

/-- What the settlement kept back of the debit. -/
def kept (p : Payment) : Int := p.paid - p.executor - p.verifiers

end Payment

inductive Effect
  | reserved (task : TaskId) (user : Addr) (amount : Int) (expireBlock : Int)
  | settled (payment : Payment)
  | fundPaid (epoch : Int) (amount : Int)
  deriving DecidableEq, Repr

/-! ## the audit queues -/

/-- The tasks waiting for one tier of verification, with the index of their
timeouts. -/
structure AuditQueue (third : Bool) where
  pending : Table TaskId SecondVerificationPendingTask fun t apt =>
    apt.taskId = t ∧ apt.isThirdVerification = third
  timeouts : Store HeightKey Unit

namespace AuditQueue

variable {third : Bool}

def empty : AuditQueue third := ⟨∅, ∅⟩

variable (q : AuditQueue third)

/-- `SetSecondVerificationPending` for a task of this tier. -/
def push (apt : SecondVerificationPendingTask) (h : apt.isThirdVerification = third) :
    AuditQueue third where
  pending := q.pending.set apt.taskId apt ⟨rfl, h⟩
  timeouts := q.timeouts.put ⟨apt.submittedAt, apt.taskId⟩ ()

/-- `DeleteSecondVerificationPending`: the timeout key is found through the
stored entry. -/
def delete (t : TaskId) : AuditQueue third where
  pending := q.pending.erase t
  timeouts :=
    match q.pending.get t with
    | some apt => q.timeouts.erase ⟨apt.submittedAt, t⟩
    | none => q.timeouts

/-- The two separate deletions of the timeout sweep. -/
def finish (t : TaskId) (key : HeightKey) : AuditQueue third where
  pending := q.pending.erase t
  timeouts := q.timeouts.erase key

@[simp] theorem pending_push (apt : SecondVerificationPendingTask)
    (h : apt.isThirdVerification = third) (t : TaskId) :
    (q.push apt h).pending.get t = if apt.taskId = t then some apt else q.pending.get t :=
  Table.get_set q.pending apt.taskId t apt ⟨rfl, h⟩

@[simp] theorem pending_delete (t u : TaskId) :
    (q.delete t).pending.get u = if t = u then none else q.pending.get u :=
  Table.get_erase ..

@[simp] theorem pending_finish (t : TaskId) (key : HeightKey) (u : TaskId) :
    (q.finish t key).pending.get u = if t = u then none else q.pending.get u :=
  Table.get_erase ..

end AuditQueue

/-! ## the ledger -/

structure Ledger where
  inferenceAccounts : Table Addr InferenceAccount fun a ia => ia.address = a
  settledTasks : Table TaskId SettledTaskID fun t st => st.taskId = t
  fraudMarks : Store TaskId Unit
  secondVerificationRecords : Table TaskId SecondVerificationRecord fun t ar => ar.taskId = t
  second : AuditQueue false
  third : AuditQueue true
  /-- `FrozenBalanceKey`: the amount frozen for a task. -/
  frozenBalance : Store TaskId UInt64
  frozenTaskIndex : Table HeightKey FrozenTaskMeta fun k m =>
    m.expireBlock = k.height ∧ m.taskId = k.taskId
  log : List (Int × Effect)

namespace Ledger

def empty : Ledger where
  inferenceAccounts := ∅
  settledTasks := ∅
  fraudMarks := ∅
  secondVerificationRecords := ∅
  second := .empty
  third := .empty
  frozenBalance := ∅
  frozenTaskIndex := ∅
  log := []

variable (l t)

def getInferenceAccount (a : Addr) : Option InferenceAccount :=
  l.inferenceAccounts.get a

def setInferenceAccount (ia : InferenceAccount) : Ledger :=
  { l with inferenceAccounts := l.inferenceAccounts.set ia.address ia rfl }

def getSettledTask : Option SettledTaskID := l.settledTasks.get t

def setSettledTask (st : SettledTaskID) : Ledger :=
  { l with settledTasks := l.settledTasks.set st.taskId st rfl }

def hasFraudMark : Bool := l.fraudMarks.has t

def setFraudMark : Ledger :=
  { l with fraudMarks := l.fraudMarks.put t () }

def getSecondVerificationRecord : Option SecondVerificationRecord :=
  l.secondVerificationRecords.get t

def setSecondVerificationRecord (ar : SecondVerificationRecord) : Ledger :=
  { l with secondVerificationRecords := l.secondVerificationRecords.set ar.taskId ar rfl }

/-- The queue of a tier. -/
def queue : (third : Bool) → AuditQueue third
  | false => l.second
  | true => l.third

def setQueue : (third : Bool) → AuditQueue third → Ledger
  | false, q => { l with second := q }
  | true, q => { l with third := q }

/-- `SetSecondVerificationPending`: the flag of the entry picks the store. -/
def setSecondVerificationPending (apt : SecondVerificationPendingTask) : Ledger :=
  l.setQueue apt.isThirdVerification ((l.queue apt.isThirdVerification).push apt rfl)

/-- `GetSecondVerificationPending` reads the second-verification store only. -/
def getSecondVerificationPending : Option SecondVerificationPendingTask :=
  l.second.pending.get t

def deleteSecondVerificationPending (isThirdVerification : Bool) : Ledger :=
  l.setQueue isThirdVerification ((l.queue isThirdVerification).delete t)

/-- The pending task of a tier under a task id. -/
def pendingAt (third : Bool) (t : TaskId) : Option SecondVerificationPendingTask :=
  (l.queue third).pending.get t

/-- Add to the ghost log. -/
def note (height : Int) (e : Effect) : Ledger :=
  { l with log := (height, e) :: l.log }

variable {l t}

theorem address_of_get {a : Addr} {ia : InferenceAccount} (h : l.getInferenceAccount a = some ia) :
    ia.address = a :=
  l.inferenceAccounts.lawful a ia h

theorem taskId_of_get {st : SettledTaskID} (h : l.getSettledTask t = some st) : st.taskId = t :=
  l.settledTasks.lawful t st h

theorem pending_of_get {third : Bool} {apt : SecondVerificationPendingTask}
    (h : l.pendingAt third t = some apt) : apt.taskId = t ∧ apt.isThirdVerification = third :=
  (l.queue third).pending.lawful t apt h

theorem getInferenceAccount_set (l : Ledger) (ia : InferenceAccount) (a : Addr) :
    (l.setInferenceAccount ia).getInferenceAccount a =
      if ia.address = a then some ia else l.getInferenceAccount a :=
  Table.get_set l.inferenceAccounts ia.address a ia rfl

theorem getSettledTask_set (l : Ledger) (st : SettledTaskID) (t : TaskId) :
    (l.setSettledTask st).getSettledTask t =
      if st.taskId = t then some st else l.getSettledTask t :=
  Table.get_set l.settledTasks st.taskId t st rfl

theorem hasFraudMark_set (l : Ledger) (t u : TaskId) :
    (l.setFraudMark t).hasFraudMark u = (decide (t = u) || l.hasFraudMark u) := by
  simp only [setFraudMark, hasFraudMark, Table.has, Table.get_put]
  split
  · next h => simp [h]
  · next h => simp [h]

end Ledger

end FunaiChain.Settlement
