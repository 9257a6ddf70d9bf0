import FunaiChain.Settlement.Batch

/-!
# FunaiChain.Settlement.Audit

Audit results: the votes of the second verifiers
(`ProcessSecondVerificationResult` and its batch form), the judgment once
enough votes are in (`processAuditJudgment`), and the settlement of an
audited task (`settleAuditedTask`), which the timeout sweep of EndBlock
calls as well.

The judgment of the source is one function; here it is cut into
`escalate`, `judgeTokenFraud`, `judgeSecond` and `judgeThird`.  Its local
copy of the epoch statistics is passed along and stored at the end.

`AuditedStep` and `VoteStep` say what these functions can do to the ledger
(`settleAuditedTask_cases`, `processSecondVerificationResult_cases`).
-/

namespace FunaiChain.Settlement

variable (env : Env) {override : UInt32}
variable {s s' : State} {ctx : Ctx} {apt : SecondVerificationPendingTask}
  {fee payable shortfall : Coin} {l : Ledger} {u w : Addr} {ia : InferenceAccount} {settled : Bool}
  {ar : SecondVerificationRecord} {stats : EpochStats} {msg : MsgSecondVerificationResult}

/-! ## settling an audited task -/

/-- The dedup record of an audited task. -/
def auditRecordOf (height : Int) (apt : SecondVerificationPendingTask) (status : TaskStatus)
    (fee : Coin) : SettledTaskID where
  taskId := apt.taskId
  status := status
  expireBlock := apt.expireBlock
  settledAt := height
  workerAddress := apt.workerAddress
  originalVerifiers := apt.verifierAddresses
  fee := fee
  userAddress := apt.userAddress

section
variable (ctx : Ctx) (s : State) (apt : SecondVerificationPendingTask) (auditPass : Bool)
  (origAudit : SecondVerificationRecord) (stats : EpochStats)
variable (params : Params) (ar : SecondVerificationRecord) (userAddr workerAddr : Addr)
  (ia : InferenceAccount) (baseFee : Coin)

/-- The fee of an audited task: per token from the counts the worker reported,
or with the output count the audit found. -/
def auditedFee (overrideOutputTokens : UInt32) : Exec Coin :=
  if 0 < apt.feePerInputToken || 0 < apt.feePerOutputToken then do
    let outTokens :=
      if 0 < overrideOutputTokens then overrideOutputTokens else apt.settledOutputTokens
    let cap ← MathInt.uint64 apt.maxFee.amount
    Coin.new defaultDenom (MathInt.ofUInt64 (calculatePerTokenFee apt.settledInputTokens outTokens
      apt.feePerInputToken apt.feePerOutputToken cap))
  else .ok apt.fee

/-- What is left to charge when the fail fee was paid before. -/
def auditedCharge (alreadyPaidFail : Bool) : Exec Coin :=
  if alreadyPaidFail then do
    let alreadyPaid ← MathInt.share baseFee.amount params.failSettlementFeeRatio 1000
    let rest ← MathInt.sub baseFee.amount alreadyPaid
    Coin.new baseFee.denom rest
  else .ok baseFee

/-- What is handed on: with a shortfall the paid fraction of the fee. -/
def auditedDistributable (charge payable shortfall : Coin) : Exec Coin :=
  if shortfall.isPositive then
    if charge.isPositive then do
      let product ← MathInt.mul baseFee.amount payable.amount
      let amount ← MathInt.quo product charge.amount
      Coin.new baseFee.denom amount
    else Coin.new baseFee.denom 0
  else .ok baseFee

/-- The original verifiers as rows of a split. -/
def verifierRows : List VerifierResult :=
  apt.verifierAddresses.map fun a => ⟨a, false, [], [], 0, 0⟩

/-- The success branch of `settleAuditedTask`; `none` keeps the task pending. -/
def settleAuditedSuccess (alreadyPaidFail : Bool) : Exec (Option State) := do
  let charge ← auditedCharge s.params baseFee alreadyPaidFail
  let (payable, shortfall) ← splitShortfall
    (charge.isPositive && ia.balance.amount < charge.amount) charge ia.balance.amount
  let distributable ← auditedDistributable baseFee charge payable shortfall
  let balance ← ia.balance.sub payable
  let s := s.mapLedger (·.setInferenceAccount { ia with balance := balance })
  match ← payOutSuccess env s distributable workerAddr (verifierRows apt) with
  | .error _ => return none
  | .ok (s, split) =>
      let w := s.world.incrementSuccessStreak workerAddr
      let w ← w.updateWorkerStats ctx.height workerAddr distributable
      return some ({ s with world := w }.mapLedger fun l =>
        (l.setSettledTask (auditRecordOf ctx.height apt .settled distributable)).note ctx.height
          (.settled ⟨apt.taskId, userAddr, charge.amount, payable.amount,
            split.executor, split.verifiers⟩))

/-- The fail branch of `settleAuditedTask`; `none` keeps the task pending. -/
def settleAuditedFail : Exec (Option State) :=
  settleFail env (fun failFee => failFee.isPositive && ia.balance.amount < failFee.amount) ctx s
    apt.taskId (verifierRows apt) (auditRecordOf ctx.height apt .failSettled) userAddr workerAddr
    ia baseFee

/-- `settleAuditedTask`: the state, and whether the task reached its end.  A
fraud mark counts as an end.  The reservation is released even when the
settlement then fails. -/
def settleAuditedTask (asSuccess alreadyPaidFail : Bool) (overrideOutputTokens : UInt32) :
    Exec (State × Bool) :=
  if s.hasFraudMark apt.taskId then .ok (s, true)
  else
    match env.accAddressFromBech32 apt.userAddress, env.accAddressFromBech32 apt.workerAddress with
    | some userAddr, some workerAddr =>
        if (s.getInferenceAccount userAddr).isNone then .ok (s, false)
        else do
          let (l, _) ← unfreezeBalance s.ledger userAddr apt.taskId
          let s := { s with ledger := l }
          match s.getInferenceAccount userAddr with
          | none => .error .nilPointer
          | some ia => do
              let baseFee ← auditedFee apt overrideOutputTokens
              match ← (if asSuccess then
                  settleAuditedSuccess env ctx s apt userAddr workerAddr ia baseFee alreadyPaidFail
                else settleAuditedFail env ctx s apt userAddr workerAddr ia baseFee) with
              | none => return (s, false)
              | some s => return (s, true)
    | _, _ => .ok (s, false)

/-! ## penalties -/

/-- Jail the listed accounts whose vote passes the test; an account without a
vote counts as `none`. -/
def jailVoters (addresses : List String) (votes : List Bool) (wrong : Option Bool → Bool) :
    Exec State :=
  addresses.zipIdx.foldlM
    (fun s (address, i) => if wrong votes[i]? then s.jailWorkerAt env ctx address else .ok s) s

/-- `jailWorkerAndVerifiers`: the worker and every verifier that did not vote
FAIL. -/
def jailWorkerAndVerifiers : Exec State := do
  let s ← s.jailWorkerAt env ctx apt.workerAddress
  jailVoters env ctx s apt.verifierAddresses apt.verifierVotes (· != some false)

/-- `jailFailVerifiers`: every verifier that did not vote PASS. -/
def jailFailVerifiers : Exec State :=
  jailVoters env ctx s apt.verifierAddresses apt.verifierVotes (· != some true)

/-- `jailSecondVerifiers`: every second verifier that did not vote FAIL. -/
def jailSecondVerifiers : Exec State :=
  jailVoters env ctx s ar.secondVerifierAddresses ar.results (· != some false)

/-- `jailFailSecondVerifiers`: every second verifier that voted FAIL.  Unlike
the others this loop indexes the votes without a bound check. -/
def jailFailSecondVerifiers : Exec State :=
  ar.secondVerifierAddresses.zipIdx.foldlM
    (fun s (address, i) =>
      match ar.results[i]? with
      | none => .error .indexOutOfRange
      | some true => .ok s
      | some false => s.jailWorkerAt env ctx address) s

/-! ## the judgment -/

/-- Do the votes reach the threshold?  The count is a `uint32`. -/
def auditPasses (results : List Bool) : Bool :=
  params.secondVerificationMatchThreshold ≤ UInt32.ofNat (results.count true)

section
variable (height : Int) (l : Ledger) (apt : SecondVerificationPendingTask)

/-- A second-verification task as it waits for third verification.  The votes
of the original verifiers are not carried over. -/
def thirdPendingOf : SecondVerificationPendingTask :=
  { apt with submittedAt := height, verifierVotes := [], isThirdVerification := true }

/-- Move a task from second to third verification. -/
def escalate : Ledger :=
  (l.setSecondVerificationPending (thirdPendingOf height apt)).deleteSecondVerificationPending
    apt.taskId false

/-- The output count found by a passing audit, when it contradicts the settled
one. -/
def tokenFraud : Option UInt32 :=
  let median := medianUint32 ar.secondVerifierOutputTokens
  let tol := effectiveTolerance apt.settledOutputTokens params.tokenCountTolerance
    params.tokenCountTolerancePct
  if auditPasses params ar.results && params.perTokenBillingEnabled &&
      0 < apt.feePerOutputToken && 0 < median && 0 < apt.settledOutputTokens &&
      tol < tokenDelta apt.settledOutputTokens median then
    some median
  else none

end

/-- Release the reservation of a pending task, when its user decodes. -/
def unfreezePending : Exec State :=
  match env.accAddressFromBech32 apt.userAddress with
  | none => .ok s
  | some userAddr => do
      let (l, _) ← unfreezeBalance s.ledger userAddr apt.taskId
      return { s with ledger := l }

def State.storeStats : State :=
  { s with book := s.book.setEpochStats stats }

/-- The token-count branch: the task fails, and is then settled as a fail with
the count the audit found. -/
def judgeTokenFraud (median : UInt32) (stats : EpochStats) : Exec State := do
  let s ← unfreezePending env s apt
  let s ← s.jailWorkerAt env ctx apt.workerAddress
  let s ← jailVoters env ctx s apt.verifierAddresses apt.verifierVotes (· == some true)
  let s := s.mapLedger fun l =>
    (l.setSettledTask
      (auditRecordOf ctx.height apt .failed Coin.zero)).deleteSecondVerificationPending
      apt.taskId apt.isThirdVerification
  let s := s.storeStats { stats with auditOverturn := stats.auditOverturn + 1 }
  let (s, _) ← settleAuditedTask env ctx s apt false false median
  return s

/-- The four cases of a second verification, by the original outcome and the
audit's: the state, the statistics and whether the task reached its end. -/
def judgeSecond : Exec (State × EpochStats × Bool) :=
  if apt.originalStatus = .success && auditPass then do
    let (s, settled) ← settleAuditedTask env ctx s apt true false 0
    return (s, stats, settled)
  else if apt.originalStatus = .success && !auditPass then do
    let s ← jailWorkerAndVerifiers env ctx s apt
    let s := s.mapLedger (·.setSettledTask (auditRecordOf ctx.height apt .failed Coin.zero))
    return (s, { stats with
      auditOverturn := stats.auditOverturn + 1, auditFail := stats.auditFail + 1 }, true)
  else if apt.originalStatus = .fail && auditPass then do
    let (s, settled) ← settleAuditedTask env ctx s apt true false 0
    let s ← jailFailVerifiers env ctx s apt
    return (s, { stats with auditOverturn := stats.auditOverturn + 1 }, settled)
  else do
    let (s, settled) ← settleAuditedTask env ctx s apt false false 0
    return (s, { stats with auditFail := stats.auditFail + 1 }, settled)

/-- The cases of a third verification against the recorded audit. -/
def judgeThird : Exec (State × EpochStats × Bool) :=
  let origAuditPass := auditPasses s.params origAudit.results
  let overturned := { stats with
    thirdVerificationOverturn := stats.thirdVerificationOverturn + 1 }
  let failed := auditRecordOf ctx.height apt .failed Coin.zero
  if origAuditPass && !auditPass then do
    let s ← jailSecondVerifiers env ctx s origAudit
    let s ← jailWorkerAndVerifiers env ctx s apt
    return (s.mapLedger (·.setSettledTask failed), overturned, true)
  else if !origAuditPass && auditPass then do
    let s ← jailFailSecondVerifiers env ctx s origAudit
    let (s, settled) ←
      settleAuditedTask env ctx s apt (apt.originalStatus == .success) false 0
    return (s, overturned, settled)
  else if origAuditPass then do
    let (s, settled) ←
      settleAuditedTask env ctx s apt (apt.originalStatus == .success) false 0
    return (s, stats, settled)
  else if apt.originalStatus = .success then do
    let s ← jailWorkerAndVerifiers env ctx s apt
    return (s.mapLedger (·.setSettledTask failed), stats, true)
  else do
    let (s, settled) ← settleAuditedTask env ctx s apt false false 0
    return (s, stats, settled)

end

/-- Store the statistics, and remove the task from its queue when it reached
its end. -/
def closeJudgment (third : Bool) (t : TaskId) (r : State × EpochStats × Bool) : State :=
  let s := r.1.storeStats r.2.1
  if r.2.2 then s.mapLedger (·.deleteSecondVerificationPending t third) else s

section
variable (ctx : Ctx) (s : State) (e : SecondVerificationBatchEntry)

/-- The statistics of the current epoch with one more judgment. -/
def judgmentStats (b : Book) : EpochStats :=
  let stats := b.getEpochStats ctx.epoch
  { stats with secondVerificationTotal := stats.secondVerificationTotal + 1 }

/-- `processAuditJudgment`. -/
def processAuditJudgment (ar : SecondVerificationRecord) : Exec State :=
  let auditPass := auditPasses s.params ar.results
  match s.ledger.getSecondVerificationPending ar.taskId with
  | none => .ok s
  | some apt =>
      let stats := judgmentStats ctx s.book
      if !apt.isThirdVerification then
        if shouldTriggerThirdVerification env ctx ar.taskId
            s.book.getCurrentThirdVerificationRate then
          .ok ((s.mapLedger (escalate ctx.height · apt)).storeStats stats)
        else
          match tokenFraud s.params ar apt with
          | some median => judgeTokenFraud env ctx s apt median stats
          | none => do
              let r ← judgeSecond env ctx s apt auditPass stats
              return closeJudgment false ar.taskId r
      else
        let stats := { stats with thirdVerificationTotal := stats.thirdVerificationTotal + 1 }
        match s.ledger.getSecondVerificationRecord ar.taskId with
        | none =>
            .ok ((s.mapLedger (·.deleteSecondVerificationPending ar.taskId true)).storeStats stats)
        | some origAudit => do
            let r ← judgeThird env ctx s apt auditPass origAudit stats
            return closeJudgment true ar.taskId r

/-! ## votes -/

/-- Are all votes of a record in? -/
def votesComplete (params : Params) (ar : SecondVerificationRecord) : Bool :=
  params.secondVerifierCount ≤ lenUInt32 ar.secondVerifierAddresses

section
variable (height : Int) (msg : MsgSecondVerificationResult)

/-- The record with one more vote. -/
def addVote : Option SecondVerificationRecord → SecondVerificationRecord
  | none =>
      ⟨msg.taskId, msg.epoch, [msg.secondVerifier], [msg.pass], height,
        [msg.verifiedInputTokens], [msg.verifiedOutputTokens]⟩
  | some ar =>
      { ar with
        secondVerifierAddresses := ar.secondVerifierAddresses ++ [msg.secondVerifier]
        results := ar.results ++ [msg.pass]
        processedAt := height
        secondVerifierInputTokens := ar.secondVerifierInputTokens ++ [msg.verifiedInputTokens]
        secondVerifierOutputTokens := ar.secondVerifierOutputTokens ++ [msg.verifiedOutputTokens] }

/-- Has this second verifier voted already? -/
def hasVoted (secondVerifier : String) : Option SecondVerificationRecord → Bool
  | none => false
  | some ar => ar.secondVerifierAddresses.contains secondVerifier

/-- The statistics of the current epoch with one more vote. -/
def voteStats (b : Book) : EpochStats :=
  let stats := b.getEpochStats ctx.epoch
  { stats with secondVerificationPersonCount := stats.secondVerificationPersonCount + 1 }

/-- Count a vote for its second verifier and for the epoch. -/
def countVote (secondVerifier : String) : State :=
  let s := { s with book := incrementSecondVerifierEpochCount env s.book secondVerifier }
  s.storeStats (voteStats ctx s.book)

/-- Store a vote and judge the task when it was the last one. -/
def recordVote : Exec State :=
  let ar := addVote ctx.height msg (s.ledger.getSecondVerificationRecord msg.taskId)
  let s := countVote env ctx (s.mapLedger (·.setSecondVerificationRecord ar)) msg.secondVerifier
  if s.params.secondVerifierCount ≤ lenUInt32 ar.results then processAuditJudgment env ctx s ar
  else .ok s

/-- `ProcessSecondVerificationResult`. -/
def processSecondVerificationResult : Exec (State × Except Err Unit) :=
  let ar := s.ledger.getSecondVerificationRecord msg.taskId
  if ar.any (votesComplete s.params) then .ok (s, .ok ())
  else
    match s.ledger.getSecondVerificationPending msg.taskId with
    | none =>
        .ok (s, .error (.errorf ("no SecondVerificationPending for task " ++
          hexEncode msg.taskId ++ " — second_verifier may not submit a result before the " ++
          "corresponding receipt has settled (§2.9 timing-attack rule)")))
    | some apt =>
        if 0 < apt.expireBlock ∧ apt.expireBlock < ctx.height then
          .ok (s, .error (.errorf ("SecondVerificationPending for task " ++
            hexEncode msg.taskId ++ " expired (expire_block=" ++ toString apt.expireBlock ++
            ", current=" ++ toString ctx.height ++ ") — late audit result rejected")))
        else if apt.verifierAddresses.contains msg.secondVerifier then
          .ok (s, .error (.errorf ("second_verifier " ++ msg.secondVerifier ++
            " is an original verifier for task " ++ hexEncode msg.taskId ++ ", cannot audit")))
        else if hasVoted msg.secondVerifier ar then
          .ok (s, .error (.errorf ("second_verifier " ++ msg.secondVerifier ++
            " already submitted a result for task " ++ hexEncode msg.taskId ++
            ", duplicate rejected")))
        else do
          let s ← recordVote env ctx s msg
          return (s, .ok ())

end

/-- The message that a batch entry stands for. -/
def SecondVerificationBatchEntry.single : MsgSecondVerificationResult :=
  ⟨e.secondVerifier, e.taskId, e.epoch, e.pass, e.logitsHash, e.verifiedInputTokens,
    e.verifiedOutputTokens⟩

/-- The signature check of a batch entry against the registered key. -/
def batchEntrySigned : Bool :=
  match env.accAddressFromBech32 e.secondVerifier with
  | none => false
  | some verifierAddr =>
      match s.world.getWorkerPubkey verifierAddr with
      | none => false
      | some pubkeyStr =>
          match decodeWorkerPubkey env pubkeyStr with
          | none => false
          | some pubkey =>
              env.verifySignature pubkey
                (env.sha256 (secondVerificationEntrySigBytes env e pubkey)) e.signature

/-- `processSecondVerificationBatchEntry`: was the entry accepted? -/
def processSecondVerificationBatchEntry : Exec (State × Bool) :=
  if batchEntrySigned env s e then do
    match ← processSecondVerificationResult env ctx s e.single with
    | (s, .ok ()) => return (s, true)
    | (s, .error _) => return (s, false)
  else .ok (s, false)

end

/-- The state and the counts of accepted and rejected entries. -/
structure ResultAcc where
  state : State
  accepted : UInt32
  rejected : UInt32

def resultStep (ctx : Ctx) (acc : ResultAcc) (e : SecondVerificationBatchEntry) :
    Exec ResultAcc := do
  match ← processSecondVerificationBatchEntry env ctx acc.state e with
  | (s, true) => return { acc with state := s, accepted := acc.accepted + 1 }
  | (s, false) => return { acc with state := s, rejected := acc.rejected + 1 }

/-- `ProcessSecondVerificationResultBatch`. -/
def processSecondVerificationResultBatch (ctx : Ctx) (s : State)
    (msg : MsgSecondVerificationResultBatch) : Exec (State × UInt32 × UInt32) := do
  let acc ← msg.entries.foldlM (resultStep env ctx) ⟨s, 0, 0⟩
  return (acc.state, acc.accepted, acc.rejected)

/-! ## what a settlement after audit can do -/

section
variable (env : Env) (height : Int) (params : Params) (apt : SecondVerificationPendingTask)
  (asSuccess : Bool) (overrideOutputTokens : UInt32) (l : Ledger)

/-- What `settleAuditedTask` can do to the ledger, with its answer and what
leaves the settlement account. -/
inductive AuditedStep : Ledger → Bool → Int → Prop
  /-- Fraud is terminal. -/
  | marked (mark : l.hasFraudMark apt.taskId = true) : AuditedStep l true 0
  /-- An address does not decode, or the user has no account. -/
  | stuck (unmarked : l.hasFraudMark apt.taskId = false)
      (missing : ∀ u w, env.accAddressFromBech32 apt.userAddress = some u →
        env.accAddressFromBech32 apt.workerAddress = some w → l.getInferenceAccount u = none) :
      AuditedStep l false 0
  /-- A payout was refused, after the reservation was released. -/
  | refused (unmarked : l.hasFraudMark apt.taskId = false) (u : Addr)
      (user : env.accAddressFromBech32 apt.userAddress = some u)
      (account : (l.getInferenceAccount u).isSome) :
      AuditedStep (l.release u apt.taskId) false 0
  | charged (unmarked : l.hasFraudMark apt.taskId = false) (u : Addr)
      (user : env.accAddressFromBech32 apt.userAddress = some u) (fee : Coin)
      (hfee : auditedFee apt overrideOutputTokens = .ok fee) (ia : InferenceAccount)
      (account : (l.release u apt.taskId).getInferenceAccount u = some ia) (p : Payment)
      (task : p.task = apt.taskId) (payer : p.user = u)
      (charge : Charge params fee.amount ia.balance.amount p asSuccess) (recorded : Coin)
      (hrecorded : asSuccess = true → recorded = ⟨defaultDenom, p.paid⟩) :
      AuditedStep ((l.release u apt.taskId).settle height ia p
          (auditRecordOf height apt (chargedStatus asSuccess) recorded)) true
        (p.verifiers + p.executor)

end

variable {env}

/-- What is handed on is what was paid. -/
theorem auditedDistributable_eq {distributable : Coin} (hdenom : payable.denom = fee.denom)
    (hshort : shortfall.amount = fee.amount - payable.amount)
    (h : auditedDistributable fee fee payable shortfall = .ok distributable)
    (hle : payable.amount ≤ fee.amount) (hpos : payable.amount < fee.amount → 0 < fee.amount) :
    distributable = payable := by
  unfold auditedDistributable at h
  simp only [Coin.isPositive, decide_eq_true_eq] at h
  split at h
  · next hpositive =>
    rw [if_pos (hpos (by omega))] at h
    obtain ⟨product, hproduct, h⟩ := bind_eq_ok.mp h
    obtain ⟨rfl, -⟩ := MathInt.mul_eq_ok.mp hproduct
    obtain ⟨amount, hamount, h⟩ := bind_eq_ok.mp h
    obtain ⟨hne, rfl⟩ := MathInt.quo_eq_ok.mp hamount
    obtain ⟨-, -, rfl⟩ := Coin.new_eq_ok.mp h
    rw [Int.mul_tdiv_cancel_left _ hne, ← hdenom]
  · cases h
    cases fee
    cases payable
    simp_all
    omega

/-- A parked entry is billed per token exactly if the entry was. -/
theorem perToken_pendingOf (height : Int) (e : SettlementEntry) :
    (0 < (pendingOf height e).feePerInputToken || 0 < (pendingOf height e).feePerOutputToken) =
    e.isPerToken := by
  cases hper : e.isPerToken with
  | false => simp [pendingOf, hper]
  | true =>
    have hprice := hper
    simp only [SettlementEntry.isPerToken, Bool.and_eq_true, decide_eq_true_eq] at hprice
    simp [pendingOf, hper, hprice.1]

/-- After audit an entry costs a price per token or what it named. -/
theorem auditedFee_pendingOf {height : Int} {e : SettlementEntry}
    (h : auditedFee (pendingOf height e) override = .ok fee) :
    (0 ≤ fee.amount ∧ fee.denom = defaultDenom) ∨ fee = e.nominal := by
  rw [auditedFee, perToken_pendingOf] at h
  split at h
  · obtain ⟨cap, -, h⟩ := bind_eq_ok.mp h
    obtain ⟨-, hnn, rfl⟩ := Coin.new_eq_ok.mp h
    exact .inl ⟨hnn, rfl⟩
  · next hflat =>
    cases h
    exact .inr (if_neg hflat).symm

theorem shortfall_tested (c : Coin)
    (h : (c.isPositive && decide (ia.balance.amount < c.amount)) = true) :
    ia.balance.amount < c.amount :=
  of_decide_eq_true (Bool.and_elim_right h)

theorem settleAuditedSuccess_moves
    (hdenom : ia.balance.denom = fee.denom → fee.denom = defaultDenom) :
    OnValue (fun o => ∀ s' ∈ o, ∃ p : Payment, p.task = apt.taskId ∧ p.user = u ∧
      p.due = fee.amount ∧ SuccessPayment s.params ia.balance.amount p ∧ State.Moves env s s'
        (s.ledger.settle ctx.height ia p
          (auditRecordOf ctx.height apt .settled ⟨defaultDenom, p.paid⟩))
        (p.verifiers + p.executor) ∧
      State.Receives env s s' (if 0 < p.paid then successPayments env s.params p.paid w
        (uniqueAddresses (verifierRows apt)) else []))
      (settleAuditedSuccess env ctx s apt u w ia fee false) := by
  refine .after fun charge hcharge => .after fun ⟨payable, shortfall⟩ hsplit => ?_
  obtain rfl : fee = charge := Except.ok.inj hcharge
  refine .after fun distributable hdist => .after fun balance hsub => ?_
  obtain ⟨hpayable, hsame, hshort, rfl⟩ := splitShortfall_sub hsplit hsub (shortfall_tested _)
  have hdist : distributable = payable := by
    refine auditedDistributable_eq (by rw [hpayable]) hshort hdist ?_ ?_
    · grind
    · intro hlt
      obtain ⟨hp, -, -⟩ := splitShortfall_eq hsplit
      by_contra hneg
      rw [hp] at hlt
      simp [Coin.isPositive, hneg] at hlt
  subst hdist
  have hpd : distributable.denom = defaultDenom := by rw [hpayable, hdenom hsame]
  refine (payOutSuccess_paid hpd).bind_result (fun _ => .none) ?_
  rintro ⟨s₁, split⟩ ⟨hv, he, hout, hpays, hreceives⟩
  refine .after fun w₁ hstats => ?_
  have hquiet : State.Quiet env s₁ { s₁ with world := w₁ } :=
    State.Quiet.ofWorld ((World.frame_updateWorker ..).trans
      (World.frame_updateWorkerStats.get hstats))
  have hbank : w₁.bank = s₁.world.bank :=
    (bank_updateWorkerStats.get hstats).trans (bank_updateWorker _ _ _ _)
  have hpaid : distributable.amount = min fee.amount ia.balance.amount := by rw [hpayable]
  have hcoin : distributable = ⟨defaultDenom, distributable.amount⟩ := by rw [← hpd]
  refine .some ⟨⟨apt.taskId, u, fee.amount, distributable.amount, split.executor,
    split.verifiers⟩, rfl, rfl, rfl, ⟨hpaid, he, hv, hout⟩, ?_, hreceives.of_bank rfl hbank⟩
  have hpays : State.Pays env (s.mapLedger (·.debit ia distributable.amount)) s₁
    (split.verifiers + split.executor) := hpays
  rw [← hcoin]
  exact State.Pays.settle hpays hquiet

namespace Ledger

/-- Every balance is held in the default denom. -/
def Denominated (l : Ledger) : Prop :=
  ∀ a ia, l.getInferenceAccount a = some ia → ia.balance.denom = defaultDenom

end Ledger

/-- The ways through the settlement of an audited task. -/
theorem settleAuditedTask_rule {asSuccess alreadyPaidFail : Bool} {Q : State × Bool → Prop}
    (hmarked : s.ledger.hasFraudMark apt.taskId = true → Q (s, true))
    (hstuck : s.ledger.hasFraudMark apt.taskId = false →
      (∀ u w, env.accAddressFromBech32 apt.userAddress = some u →
        env.accAddressFromBech32 apt.workerAddress = some w →
        s.ledger.getInferenceAccount u = none) → Q (s, false))
    (hrefused : s.ledger.hasFraudMark apt.taskId = false →
      ∀ u, env.accAddressFromBech32 apt.userAddress = some u →
        (s.ledger.getInferenceAccount u).isSome → Q (s.mapLedger (·.release u apt.taskId), false))
    (hsettled : s.ledger.hasFraudMark apt.taskId = false →
      ∀ u w ia fee, env.accAddressFromBech32 apt.userAddress = some u →
        env.accAddressFromBech32 apt.workerAddress = some w →
        (s.ledger.release u apt.taskId).getInferenceAccount u = some ia →
        auditedFee apt override = .ok fee → OnValue (fun o => ∀ s' ∈ o, Q (s', true))
          (if asSuccess then settleAuditedSuccess env ctx (s.mapLedger (·.release u apt.taskId)) apt
            u w ia fee alreadyPaidFail
          else settleAuditedFail env ctx (s.mapLedger (·.release u apt.taskId)) apt u w ia fee)) :
    OnValue Q (settleAuditedTask env ctx s apt asSuccess alreadyPaidFail override) := by
  refine .ite (fun hmark => .ok (hmarked hmark)) fun hmark => ?_
  replace hmark : s.ledger.hasFraudMark apt.taskId = false := eq_false_of_ne_true hmark
  split
  · next u w hu hw =>
    refine .ite (fun hnone => .ok (hstuck hmark fun u' w' hu' _ => ?_)) fun hsome => ?_
    · cases hu.symm.trans hu'
      exact Option.isNone_iff_eq_none.mp hnone
    refine .after fun ⟨l, r⟩ hunfreeze => ?_
    obtain rfl := unfreezeBalance_eq hunfreeze
    dsimp only
    split
    · exact .error
    next ia hia =>
    have haccount : (s.ledger.getInferenceAccount u).isSome :=
      Option.isSome_iff_ne_none.mpr (mt Option.isNone_iff_eq_none.mpr hsome)
    exact .after fun fee hfee => (hsettled hmark u w ia fee hu hw hia hfee).bind_option
      (.ok (hrefused hmark u hu haccount)) fun s' hs' => .ok hs'
  · next hundecoded => exact .ok (hstuck hmark fun u w hu hw => (hundecoded u w hu hw).elim)

/-- **The settlement of an audited task** is an `AuditedStep` of the ledger. -/
theorem settleAuditedTask_cases {asSuccess : Bool} (hdenom : s.ledger.Denominated) :
    OnValue (fun r => ∃ l' out,
    AuditedStep env ctx.height s.params apt asSuccess override s.ledger l' r.2 out ∧
    State.Moves env s r.1 l' out) (settleAuditedTask env ctx s apt asSuccess false override) := by
  have hrelease : ∀ u, State.Moves env s (s.mapLedger (·.release u apt.taskId))
    (s.ledger.release u apt.taskId) 0 := fun u => (State.Moves.refl s).map _
  refine settleAuditedTask_rule (fun hmark => ⟨_, _, .marked hmark, .refl s⟩)
    (fun hmark hmissing => ⟨_, _, .stuck hmark hmissing, .refl s⟩)
    (fun hmark u hu haccount => ⟨_, _, .refused hmark u hu haccount, hrelease u⟩)
    fun hmark u w ia fee hu _ hia hfee => ?_
  have hbalance : ia.balance.denom = defaultDenom := by
    obtain ⟨ia₀, hia₀, hbalance⟩ := Ledger.account_of_release hia
    rw [hbalance]
    exact hdenom u ia₀ hia₀
  cases asSuccess with
  | true =>
    refine (settleAuditedSuccess_moves fun hsame => hsame ▸ hbalance).mono
      fun o ho s' hs' => ?_
    obtain ⟨p, htask, huser, hdue, hp, hmove, -⟩ := ho s' hs'
    exact ⟨_, _, .charged hmark u hu fee hfee ia hia p htask huser
      (.success hdue hp) _ (fun _ => rfl), hmove.after (hrelease u)⟩
  | false =>
    refine (settleFail_moves shortfall_tested fun hsame => hsame ▸ hbalance).mono
      fun o ho s' hs' => ?_
    obtain ⟨p, c, htask, huser, hdue, hp, hmove⟩ := ho s' hs'
    exact ⟨_, _, .charged hmark u hu fee hfee ia hia p htask huser
      (.fail hdue hp) c (by simp), hmove.after (hrelease u)⟩

/-! ## what a vote can do -/

theorem quiet_jailVoters {addresses : List String} {votes : List Bool}
    {wrong : Option Bool → Bool} :
    OnValue (State.Quiet env s) (jailVoters env ctx s addresses votes wrong) := by
  refine .foldlM _ (fun s₁ x hs₁ => ?_) (State.Quiet.refl s)
  exact .either (State.quiet_jailWorkerAt.mono fun _ => hs₁.trans) <| .ok hs₁

theorem quiet_jailWorkerAndVerifiers :
    OnValue (State.Quiet env s) (jailWorkerAndVerifiers env ctx s apt) :=
  State.quiet_jailWorkerAt.bind fun _ hworker => quiet_jailVoters.mono fun _ => hworker.trans

/-- Statistics that keep the counted fees may be stored at any time. -/
theorem State.Moves.storeStats {x : Int} (h : State.Moves env s s' l x) (stats : EpochStats)
    (hstats : stats.totalFees = s.book.fees stats.epoch) :
    State.Moves env s (s'.storeStats stats) l x :=
  h.quiet (State.Quiet.ofStats (by rw [h.fees, hstats]))

namespace Ledger

variable (env)

/-- Release the reservation of a pending task for the user it names. -/
def releasePending (l : Ledger) (apt : SecondVerificationPendingTask) : Ledger :=
  match env.accAddressFromBech32 apt.userAddress with
  | none => l
  | some u => l.release u apt.taskId

/-- Record a pending task as failed and take it from the second queue. -/
def failPending (l : Ledger) (height : Int) (apt : SecondVerificationPendingTask) : Ledger :=
  (l.setSettledTask (auditRecordOf height apt .failed Coin.zero)).deleteSecondVerificationPending
    apt.taskId false

end Ledger

/-- Does the audit decide for the success split?  An original status outside
the two named ones is settled as a fail. -/
def decidesSuccess (params : Params) (apt : SecondVerificationPendingTask)
    (results : List Bool) : Bool :=
  auditPasses params results && (apt.originalStatus == .success || apt.originalStatus == .fail)

section
variable (env : Env) (height : Int) (params : Params) (ar : SecondVerificationRecord)
  (apt : SecondVerificationPendingTask) (l : Ledger)

/-- What the judgment of a second verification can do to the ledger. -/
inductive JudgmentStep : Ledger → Int → Prop
  | escalated : JudgmentStep (escalate height l apt) 0
  | tokenFraud {l' : Ledger} {settled : Bool} {out : Int} (median : UInt32)
      (found : tokenFraud params ar apt = some median)
      (step : AuditedStep env height params apt false median
        ((l.releasePending env apt).failPending height apt) l' settled out) :
      JudgmentStep l' out
  | overturned (status : apt.originalStatus = .success)
      (fail : auditPasses params ar.results = false) :
      JudgmentStep (l.failPending height apt) 0
  | settled {l' : Ledger} {out : Int}
      (step : AuditedStep env height params apt (decidesSuccess params apt ar.results) 0 l l'
        true out) :
      JudgmentStep (l'.deleteSecondVerificationPending apt.taskId false) out
  /-- The settlement failed; the task stays for the timeout sweep. -/
  | retained {l' : Ledger} {out : Int}
      (step : AuditedStep env height params apt (decidesSuccess params apt ar.results) 0 l l'
        false out) :
      JudgmentStep l' out

end

/-- The outcome of `judgeSecond`, before the task is taken from its queue. -/
theorem judgeSecond_cases (hdenom : s.ledger.Denominated) :
    OnValue (fun r => r.2.1.epoch = stats.epoch ∧ r.2.1.totalFees = stats.totalFees ∧
    ((r.2.2 = true ∧ apt.originalStatus = .success ∧ auditPasses s.params ar.results = false ∧
    State.Moves env s r.1
    (s.ledger.setSettledTask (auditRecordOf ctx.height apt .failed Coin.zero)) 0) ∨
    ∃ l' out, AuditedStep env ctx.height s.params apt (decidesSuccess s.params apt ar.results) 0
    s.ledger l' r.2.2 out ∧ State.Moves env s r.1 l' out))
    (judgeSecond env ctx s apt (auditPasses s.params ar.results) stats) := by
  unfold decidesSuccess
  generalize auditPasses s.params ar.results = pass
  refine .ite (fun hc => ?_) fun hc => .ite (fun hc' => ?_) fun hc' => .ite (fun hc'' => ?_)
    fun hc'' => ?_
  · simp only [Bool.and_eq_true, decide_eq_true_eq] at hc
    obtain ⟨hstatus, rfl⟩ := hc
    refine (settleAuditedTask_cases hdenom).bind fun r hr => .ok ⟨rfl, rfl, .inr ?_⟩
    simpa [hstatus] using hr
  · simp only [Bool.and_eq_true, decide_eq_true_eq, Bool.not_eq_true'] at hc'
    exact quiet_jailWorkerAndVerifiers.bind fun s₁ hjail => .ok ⟨rfl, rfl,
      .inl ⟨rfl, hc'.1, hc'.2, hjail.moves.map (·.setSettledTask _)⟩⟩
  · simp only [Bool.and_eq_true, decide_eq_true_eq] at hc''
    obtain ⟨hfail, rfl⟩ := hc''
    refine (settleAuditedTask_cases hdenom).bind fun r hr => quiet_jailVoters.bind
      fun s₂ hjail => .ok ⟨rfl, rfl, .inr ?_⟩
    obtain ⟨l', out, hstep, hmove⟩ := hr
    exact ⟨l', out, by simpa [hfail] using hstep, hmove.quiet hjail⟩
  · refine (settleAuditedTask_cases hdenom).bind fun r hr => .ok ⟨rfl, rfl, .inr ?_⟩
    have hfalse : (pass && (apt.originalStatus == .success || apt.originalStatus == .fail)) =
        false := by
      cases pass <;> simp_all
    rwa [hfalse]

namespace Ledger

theorem Denominated.congr {l' : Ledger} (h : l.Denominated)
    (he : l'.inferenceAccounts = l.inferenceAccounts) : l'.Denominated := by
  intro a ia hia
  exact h a ia (by rw [getInferenceAccount, ← he]; exact hia)

theorem Denominated.set {l : Ledger} (h : l.Denominated) {ia : InferenceAccount}
    (hia : ia.balance.denom = defaultDenom) : (l.setInferenceAccount ia).Denominated := by
  intro a ia' hia'
  rw [getInferenceAccount_set] at hia'
  split at hia'
  · grind
  · exact h a ia' hia'

theorem Denominated.release (h : l.Denominated) (a : Addr) (t : TaskId) :
    (l.release a t).Denominated := by
  intro b ia hia
  obtain ⟨ia₀, hia₀, hbalance⟩ := account_of_release hia
  rw [hbalance]
  exact h b ia₀ hia₀

theorem Denominated.releasePending (h : l.Denominated) (apt : SecondVerificationPendingTask) :
    (l.releasePending env apt).Denominated := by
  unfold Ledger.releasePending
  split
  · exact h
  · exact h.release _ _

end Ledger

theorem unfreezePending_moves :
    OnValue (fun s' => State.Moves env s s' (s.ledger.releasePending env apt) 0)
    (unfreezePending env s apt) := by
  unfold unfreezePending Ledger.releasePending
  split
  · exact .ok (.refl s)
  · next u hu =>
    refine .after fun ⟨l, r⟩ hunfreeze => ?_
    obtain rfl := unfreezeBalance_eq hunfreeze
    exact .ok ((State.Moves.refl s).map (·.release u apt.taskId))

theorem judgeTokenFraud_cases {median : UInt32} (hdenom : s.ledger.Denominated)
    (hsecond : apt.isThirdVerification = false)
    (hstats : stats.totalFees = s.book.fees stats.epoch) :
    OnValue (fun s' => ∃ l' settled out, AuditedStep env ctx.height s.params apt false median
    ((s.ledger.releasePending env apt).failPending ctx.height apt) l' settled out ∧
    State.Moves env s s' l' out) (judgeTokenFraud env ctx s apt median stats) := by
  refine unfreezePending_moves.bind fun s₁ hunfreeze => State.quiet_jailWorkerAt.bind
    fun s₂ hworker => quiet_jailVoters.bind fun s₃ hvoters => ?_
  have hmove := (((hunfreeze.quiet hworker).quiet hvoters).map
    (·.failPending ctx.height apt)).storeStats
      { stats with auditOverturn := stats.auditOverturn + 1 } hstats
  have hdenom' : ((s.ledger.releasePending env apt).failPending ctx.height apt).Denominated :=
    (hdenom.releasePending apt).congr rfl
  rw [← hmove.ledger] at hdenom'
  rw [hsecond]
  refine (settleAuditedTask_cases hdenom').bind fun r hr => .ok ?_
  obtain ⟨l', out, hstep, hmove'⟩ := hr
  rw [hmove.ledger, hmove.params] at hstep
  exact ⟨l', r.2, out, hstep, hmove'.after hmove⟩

/-- **The judgment** of a task in second verification is a `JudgmentStep`.  The
third-verification branch of the source is never taken: the store it reads
the task from holds second verifications only. -/
theorem processAuditJudgment_cases (hdenom : s.ledger.Denominated)
    (hpending : s.ledger.second.pending.get ar.taskId = some apt) :
    OnValue (fun s' => ∃ l' out, JudgmentStep env ctx.height s.params ar apt s.ledger l' out ∧
    State.Moves env s s' l' out) (processAuditJudgment env ctx s ar) := by
  obtain ⟨htask, hsecond⟩ := s.ledger.second.pending.lawful _ _ hpending
  unfold processAuditJudgment
  simp only [Ledger.getSecondVerificationPending, hpending, hsecond]
  rw [Bool.not_false, if_pos rfl]
  have hfees : (judgmentStats ctx s.book).totalFees =
      s.book.fees (judgmentStats ctx s.book).epoch := by
    show s.book.fees ctx.epoch = s.book.fees (s.book.getEpochStats ctx.epoch).epoch
    rw [Book.epoch_getEpochStats]
  generalize judgmentStats ctx s.book = stats₀ at hfees
  refine .either (.ok ⟨_, _, .escalated, ?_⟩) ?_
  · exact ((State.Moves.refl s).map (escalate ctx.height · apt)).storeStats stats₀ hfees
  split
  · next median hfound =>
    refine (judgeTokenFraud_cases hdenom hsecond hfees).mono fun s' hs' => ?_
    obtain ⟨l', settled, out, hstep, hmove⟩ := hs'
    exact ⟨l', out, .tokenFraud median hfound hstep, hmove⟩
  · refine (judgeSecond_cases hdenom).bind ?_
    rintro ⟨s₁, stats, settled⟩ ⟨hepoch, htotal, hcases⟩
    have hstats : stats.totalFees = s.book.fees stats.epoch := by rw [htotal, hepoch, hfees]
    simp only [closeJudgment, ← htask]
    obtain ⟨rfl, hstatus, hfail, hmove⟩ | ⟨l', out, hstep, hmove⟩ := hcases
    · exact .ok ⟨_, _, .overturned hstatus hfail,
        (hmove.storeStats stats hstats).map (·.deleteSecondVerificationPending apt.taskId false)⟩
    · cases settled with
      | true =>
        exact .ok ⟨_, _, .settled hstep,
          (hmove.storeStats stats hstats).map (·.deleteSecondVerificationPending apt.taskId false)⟩
      | false => exact .ok ⟨_, _, .retained hstep, hmove.storeStats stats hstats⟩

/-- What the chain knows when it counts a vote on a pending task with a record
`ar` of earlier votes. -/
structure Votable (height : Int) (params : Params) (apt : SecondVerificationPendingTask)
    (ar : Option SecondVerificationRecord) (msg : MsgSecondVerificationResult) : Prop where
  incomplete : ar.any (votesComplete params) = false
  unexpired : ¬ (0 < apt.expireBlock ∧ apt.expireBlock < height)
  outsider : apt.verifierAddresses.contains msg.secondVerifier = false
  unvoted : hasVoted msg.secondVerifier ar = false

section
variable (env : Env) (height : Int) (params : Params) (msg : MsgSecondVerificationResult)
  (l : Ledger)

/-- What an audit result can do to the ledger. -/
inductive VoteStep : Ledger → Int → Prop
  /-- Rejected, or too late. -/
  | ignored : VoteStep l 0
  | recorded (apt : SecondVerificationPendingTask)
      (pending : l.second.pending.get msg.taskId = some apt)
      (incomplete : lenUInt32 (addVote height msg
        (l.getSecondVerificationRecord msg.taskId)).results < params.secondVerifierCount)
      (votable : Votable height params apt (l.getSecondVerificationRecord msg.taskId) msg) :
      VoteStep (l.setSecondVerificationRecord
          (addVote height msg (l.getSecondVerificationRecord msg.taskId))) 0
  | judged {l' : Ledger} {out : Int} (apt : SecondVerificationPendingTask)
      (pending : l.second.pending.get msg.taskId = some apt)
      (complete : params.secondVerifierCount ≤ lenUInt32 (addVote height msg
        (l.getSecondVerificationRecord msg.taskId)).results)
      (step : JudgmentStep env height params
        (addVote height msg (l.getSecondVerificationRecord msg.taskId)) apt
        (l.setSecondVerificationRecord
          (addVote height msg (l.getSecondVerificationRecord msg.taskId))) l' out)
      (votable : Votable height params apt (l.getSecondVerificationRecord msg.taskId) msg) :
      VoteStep l' out

end

theorem addVote_taskId (height : Int) (msg : MsgSecondVerificationResult) (l : Ledger) :
    (addVote height msg (l.getSecondVerificationRecord msg.taskId)).taskId = msg.taskId := by
  cases h : l.getSecondVerificationRecord msg.taskId with
  | none => rfl
  | some ar => exact l.secondVerificationRecords.lawful msg.taskId ar h

theorem quiet_countVote (ctx : Ctx) (s : State) (secondVerifier : String) :
    State.Quiet env s (countVote env ctx s secondVerifier) := by
  refine (State.quiet_incrementSecondVerifierEpochCount s secondVerifier).trans
    (State.Quiet.ofStats ?_)
  show (Book.getEpochStats _ ctx.epoch).totalFees =
    Book.fees _ (Book.getEpochStats _ ctx.epoch).epoch
  rw [Book.epoch_getEpochStats, Book.fees]

theorem recordVote_cases (hdenom : s.ledger.Denominated)
    (hpending : s.ledger.second.pending.get msg.taskId = some apt)
    (hvotable : Votable ctx.height s.params apt
    (s.ledger.getSecondVerificationRecord msg.taskId) msg) :
    OnValue (fun s' => ∃ l' out, VoteStep env ctx.height s.params msg s.ledger l' out ∧
    State.Moves env s s' l' out) (recordVote env ctx s msg) := by
  unfold recordVote
  dsimp only
  generalize har : addVote ctx.height msg (s.ledger.getSecondVerificationRecord msg.taskId) = ar
  have htask : ar.taskId = msg.taskId := by rw [← har, addVote_taskId]
  have hmove : State.Moves env s (countVote env ctx (s.mapLedger
      (·.setSecondVerificationRecord ar)) msg.secondVerifier)
      (s.ledger.setSecondVerificationRecord ar) 0 :=
    ((State.Moves.refl s).map (·.setSecondVerificationRecord ar)).quiet
      (quiet_countVote ctx _ msg.secondVerifier)
  generalize countVote env ctx (s.mapLedger (·.setSecondVerificationRecord ar))
    msg.secondVerifier = s₁ at hmove
  refine .ite (fun hcomplete => ?_) fun hincomplete => .ok ?_
  · have hpending₁ : s₁.ledger.second.pending.get ar.taskId = some apt := by
      rw [hmove.ledger, htask]
      exact hpending
    have hdenom₁ : s₁.ledger.Denominated := by
      rw [hmove.ledger]
      exact hdenom.congr rfl
    refine (processAuditJudgment_cases hdenom₁ hpending₁).mono fun s' hs' => ?_
    obtain ⟨l', out, hstep, hmove'⟩ := hs'
    rw [hmove.ledger, hmove.params] at hstep
    rw [hmove.params] at hcomplete
    subst har
    exact ⟨l', out, .judged apt hpending hcomplete hstep hvotable, hmove'.after hmove⟩
  · rw [hmove.params] at hincomplete
    subst har
    exact ⟨_, _, .recorded apt hpending (UInt32.not_le.mp hincomplete) hvotable, hmove⟩

/-- **An audit result** is a `VoteStep` of the ledger. -/
theorem processSecondVerificationResult_cases (hdenom : s.ledger.Denominated) :
    OnValue (fun r => ∃ l' out, VoteStep env ctx.height s.params msg s.ledger l' out ∧
    State.Moves env s r.1 l' out) (processSecondVerificationResult env ctx s msg) := by
  have hsame : ∃ l' out, VoteStep env ctx.height s.params msg s.ledger l' out ∧
      State.Moves env s s l' out := ⟨_, _, .ignored, .refl s⟩
  refine .ite (fun _ => .ok hsame) fun hincomplete => ?_
  split
  · exact .ok hsame
  next apt hpending =>
  refine .ite (fun _ => .ok hsame) fun hexpired => .ite (fun _ => .ok hsame) fun houtsider =>
    .ite (fun _ => .ok hsame) fun hunvoted => ?_
  exact (recordVote_cases hdenom hpending ⟨Bool.eq_false_iff.mpr hincomplete, hexpired,
    Bool.eq_false_iff.mpr houtsider, Bool.eq_false_iff.mpr hunvoted⟩).bind fun s₁ hs₁ => .ok hs₁

end FunaiChain.Settlement
