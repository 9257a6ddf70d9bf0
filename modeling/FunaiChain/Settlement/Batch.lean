import FunaiChain.Settlement.Account

/-!
# FunaiChain.Settlement.Batch

`ProcessBatchSettlement`: the checks of the batch, and for every entry the
admission checks, the audit draw, billing, the release of the reservation
and one of three settlements (success, per-token fail, per-request fail).

The loop body of the source is one long function with `continue`; here it is
cut at its own comments into `admitEntry`, `auditRate`, `park`, `trackTokens` and
`actualFee`, `settleSuccess`, `settleFailPerToken` and `settleFailPerRequest`.
A per-entry `CacheContext` that is never written becomes a result `none`.

`settleEntry_cases` says once what an entry can do to the ledger.
-/

namespace FunaiChain.Settlement

open MathInt

variable (env : Env)
variable {entry : SettlementEntry} {s s' : State} {fee payable shortfall : Coin} {ctx : Ctx}
  {userAddr workerAddr : Addr} {ia : InferenceAccount} {acc acc' : BatchAcc} {balance height : Int}
  {l : Ledger} {vs : List VerifierResult} {split : Split}

/-! ## admission -/

/-- The checks that decide whether an entry is looked at, with the decoded
addresses of its user and its worker. -/
def admitEntry (height : Int) (l : Ledger) (entry : SettlementEntry) : Option (Addr × Addr) :=
  if entry.nominal.denom ≠ defaultDenom then none
  else if (l.getSettledTask entry.taskId).isSome then none
  else if l.hasFraudMark entry.taskId then none
  else if 0 < entry.expireBlock ∧ entry.expireBlock < height then none
  else if entry.userSigHash.isEmpty || entry.workerSigHash.isEmpty then none
  else if entry.verifySigHashes.length < 3 then none
  else if entry.verifySigHashes.any (·.isEmpty) then none
  else
    match env.accAddressFromBech32 entry.userAddress,
        env.accAddressFromBech32 entry.workerAddress with
    | some userAddr, some workerAddr =>
        if (l.getInferenceAccount userAddr).isNone then none else some (userAddr, workerAddr)
    | _, _ => none

/-! ## the audit draw -/

section
variable (ctx : Ctx) (s : State) (entry : SettlementEntry) (userAddr workerAddr : Addr)

/-- The audit rate of an entry: the current rate, boosted for a suspicious
worker when per-token billing is on. -/
def auditRate : Exec UInt32 :=
  let rate := s.book.getCurrentSecondVerificationRate
  if s.params.perTokenBillingEnabled then do
    let boost ← calculateWorkerAuditBoost s.params s.book entry.workerAddress
    let boosted :=
      if 0 < boost then rate + boost * s.params.secondVerificationBaseRate / 10 else rate
    return if s.params.secondVerificationRateMax < boosted then
      s.params.secondVerificationRateMax else boosted
  else .ok rate

/-- A per-token entry without any verifier's output count is always audited. -/
def forceSecondVerification (params : Params) (entry : SettlementEntry) : Bool :=
  entry.isPerToken && params.perTokenBillingEnabled &&
    !entry.verifierResults.any (fun v => 0 < v.verifiedOutputTokens) &&
    0 < entry.workerOutputTokens

section
variable (height : Int) (l : Ledger) (entry : SettlementEntry)

/-- The entry as it waits for second verification. -/
def pendingOf : SecondVerificationPendingTask where
  taskId := entry.taskId
  originalStatus := entry.status
  submittedAt := height
  userAddress := entry.userAddress
  workerAddress := entry.workerAddress
  verifierAddresses := entry.verifierResults.map (·.address)
  verifierVotes := entry.verifierResults.map (·.pass)
  fee := entry.fee
  expireBlock := entry.expireBlock
  isThirdVerification := false
  feePerInputToken := if entry.isPerToken then entry.feePerInputToken else 0
  feePerOutputToken := if entry.isPerToken then entry.feePerOutputToken else 0
  maxFee := if entry.isPerToken then entry.maxFee else Coin.zero
  settledOutputTokens := if entry.isPerToken then entry.workerOutputTokens else 0
  settledInputTokens := if entry.isPerToken then entry.workerInputTokens else 0

/-- The dedup record of an entry. -/
def recordOf (status : TaskStatus) (fee : Coin) : SettledTaskID where
  taskId := entry.taskId
  status := status
  expireBlock := entry.expireBlock
  settledAt := height
  workerAddress := entry.workerAddress
  originalVerifiers := entry.verifierResults.map (·.address)
  fee := fee
  userAddress := entry.userAddress

/-- Put an entry into the audit queue. -/
def park : Ledger :=
  (l.setSecondVerificationPending (pendingOf height entry)).setSettledTask
    (recordOf height entry .pendingSecondVerification entry.fee)

end

/-! ## billing -/

/-- The fee of an entry before any shortfall. -/
def actualFee (params : Params) (entry : SettlementEntry) : Exec Coin :=
  if entry.isPerToken then
    if params.perTokenBillingEnabled then do
      let r := resolveTokenCounts entry params.tokenCountTolerance params.tokenCountTolerancePct
      let cap ← MathInt.uint64 entry.maxFee.amount
      Coin.new defaultDenom (MathInt.ofUInt64 (calculatePerTokenFee r.inputTokens r.outputTokens
        entry.feePerInputToken entry.feePerOutputToken cap))
    else .ok entry.maxFee
  else .ok entry.fee

def noteDishonest (dishonest : Bool) (workerAddr : Addr) : Exec State :=
  if dishonest then s.incrementDishonestCount env ctx workerAddr else .ok s

/-- The bookkeeping that per-token billing adds: the worker's dishonest count
and the worker-verifier pairs. -/
def trackTokens : Exec State :=
  if entry.isPerToken && s.params.perTokenBillingEnabled then do
    let r := resolveTokenCounts entry s.params.tokenCountTolerance s.params.tokenCountTolerancePct
    let s ← noteDishonest env ctx s r.workerDishonest workerAddr
    return { s with book := updateTokenMismatchPairs s.params s.book entry r.outputTokens }
  else .ok s

/-- Count the verifications of a task that is settled without audit. -/
def countVerifiers : State :=
  entry.verifierResults.foldl
    (fun s v => { s with book := incrementVerifierEpochCount env s.book v.address }) s

/-- What is charged and what is missing: with `short` the charge is capped at
the balance. -/
def splitShortfall (short : Bool) (fee : Coin) (balance : Int) : Exec (Coin × Coin) := do
  let noShortfall ← Coin.new fee.denom 0
  if short then
    let payable ← Coin.new fee.denom balance
    let missing ← MathInt.sub fee.amount balance
    let shortfall ← Coin.new fee.denom missing
    return (payable, shortfall)
  else return (fee, noShortfall)

/-! ## the three settlements -/

/-- The worker statistics of a settled success. -/
def creditWorker (payableFee : Coin) : Exec State := do
  let s := { s with world := s.world.incrementSuccessStreak workerAddr }
  let s :=
    if 50 ≤ s.world.getSuccessStreak workerAddr then s.resetDishonestCount workerAddr else s
  let w ← s.world.updateWorkerStats ctx.height workerAddr payableFee
  let w := w.reputationOnAccept workerAddr
  let w :=
    if 0 < entry.latencyMs then w.updateAvgLatency workerAddr entry.latencyMs.toUInt32 else w
  return { s with world := w }

/-- `RecordModelTask` keeps statistics of another module; settlement only
converts the fee for it. -/
def recordModelTask (payableFee : Coin) : Exec Unit := do
  if entry.modelId ≠ "" then
    let _ ← MathInt.uint64 payableFee.amount
  return ()

section
variable (ia : InferenceAccount) (fee : Coin)

/-- Distribute a positive fee by the success split. -/
def payOutSuccess (workerAddr : Addr) (verifiers : List VerifierResult) :
    Exec (Except Err (State × Split)) :=
  if fee.isPositive then distributeSuccessFee env s fee workerAddr verifiers
  else .ok (.ok (s, ⟨0, 0⟩))

/-- Distribute a positive fee by the fail split. -/
def payOutFail (verifiers : List VerifierResult) : Exec (Except Err (State × Split)) :=
  if fee.isPositive then distributeFailFee env s fee verifiers else .ok (.ok (s, ⟨0, 0⟩))

/-- A success: the user pays the fee or what the balance holds.  With a refused
payout the entry is skipped (`none`). -/
def settleSuccess : Exec (Option (State × Int)) := do
  let (payableFee, _) ←
    splitShortfall (ia.balance.amount < fee.amount) fee ia.balance.amount
  let balance ← ia.balance.sub payableFee
  let s := s.mapLedger (·.setInferenceAccount { ia with balance := balance })
  match ← payOutSuccess env s payableFee workerAddr entry.verifierResults with
  | .error _ => return none
  | .ok (s, split) =>
      let s ← creditWorker ctx s entry workerAddr payableFee
      recordModelTask entry payableFee
      let s := s.mapLedger fun l =>
        (l.setSettledTask (recordOf ctx.height entry .settled payableFee)).note ctx.height
          (.settled ⟨entry.taskId, userAddr, fee.amount, payableFee.amount,
            split.executor, split.verifiers⟩)
      return some (s, payableFee.amount)

/-- The payment of a per-token fail: the whole fail fee or nothing. -/
def payFailPerToken (failCoin : Coin) : Exec State := do
  if (← ia.balance.isGTE failCoin) && failCoin.isPositive then
    let balance ← ia.balance.sub failCoin
    let paid := s.mapLedger (·.setInferenceAccount { ia with balance := balance })
    match ← distributeFailFee env paid failCoin entry.verifierResults with
    | .error _ => return s
    | .ok (paid, split) =>
        return paid.mapLedger (·.note ctx.height
          (.settled ⟨entry.taskId, userAddr, failCoin.amount, failCoin.amount,
            split.executor, split.verifiers⟩))
  else return s

/-- A per-token fail: the task is settled and the worker jailed whether or not
the fail fee could be paid. -/
def settleFailPerToken : Exec State := do
  let failFee ← MathInt.share fee.amount s.params.failSettlementFeeRatio 1000
  let failCoin ← Coin.new defaultDenom failFee
  let s ← payFailPerToken env ctx s entry userAddr ia failCoin
  let s := s.mapLedger (·.setSettledTask (recordOf ctx.height entry .failSettled Coin.zero))
  s.jailWorker env ctx workerAddr

end

/-- A fail: the user pays the fail fee or what the balance holds.  The two that
follow differ in the test for a shortfall, the rows and the record. -/
def settleFail (short : Coin → Bool) (ctx : Ctx) (s : State) (task : TaskId)
    (rows : List VerifierResult) (record : Coin → SettledTaskID) (userAddr workerAddr : Addr)
    (ia : InferenceAccount) (fee : Coin) : Exec (Option State) := do
  let amount ← MathInt.share fee.amount s.params.failSettlementFeeRatio 1000
  let failFee ← Coin.new fee.denom amount
  let (payableFailFee, _) ← splitShortfall (short failFee) failFee ia.balance.amount
  let balance ← ia.balance.sub payableFailFee
  let s := s.mapLedger (·.setInferenceAccount { ia with balance := balance })
  match ← payOutFail env s payableFailFee rows with
  | .error _ => return none
  | .ok (s, split) =>
      let s ← s.jailWorker env ctx workerAddr
      return some (s.mapLedger fun l => (l.setSettledTask (record payableFailFee)).note ctx.height
        (.settled ⟨task, userAddr, failFee.amount, payableFailFee.amount,
          split.executor, split.verifiers⟩))

/-- A per-request fail. -/
def settleFailPerRequest (ctx : Ctx) (s : State) (entry : SettlementEntry)
    (userAddr workerAddr : Addr) (ia : InferenceAccount) : Exec (Option State) :=
  settleFail env (fun failFee => ia.balance.amount < failFee.amount) ctx s entry.taskId
    entry.verifierResults (recordOf ctx.height entry .failSettled) userAddr workerAddr ia entry.fee

end

/-! ## the batch -/

/-- The running totals of a batch. -/
structure BatchAcc where
  state : State
  successCount : UInt32
  failCount : UInt32
  totalFees : Int

/-- Settle an entry that is not audited, after its reservation was released. -/
def settleDirect (ctx : Ctx) (acc : BatchAcc) (s : State) (entry : SettlementEntry)
    (userAddr workerAddr : Addr) (fee : Coin) : Exec BatchAcc :=
  match s.getInferenceAccount userAddr with
  | none => .error .nilPointer
  | some ia =>
      if entry.status = .success then do
        match ← settleSuccess env ctx s entry userAddr workerAddr ia fee with
        | none => return { acc with state := s }
        | some (s, paid) =>
            let totalFees ← MathInt.add acc.totalFees paid
            return { acc with
              state := s, successCount := acc.successCount + 1, totalFees := totalFees }
      else if entry.isPerToken then do
        let s ← settleFailPerToken env ctx s entry userAddr workerAddr ia fee
        let totalFees ← MathInt.add acc.totalFees fee.amount
        return { acc with state := s, failCount := acc.failCount + 1, totalFees := totalFees }
      else do
        match ← settleFailPerRequest env ctx s entry userAddr workerAddr ia with
        | none => return { acc with state := s }
        | some s =>
            let totalFees ← MathInt.add acc.totalFees fee.amount
            return { acc with state := s, failCount := acc.failCount + 1, totalFees := totalFees }

/-- One turn of the loop over the entries. -/
def settleEntry (ctx : Ctx) (acc : BatchAcc) (entry : SettlementEntry) : Exec BatchAcc :=
  match admitEntry env ctx.height acc.state.ledger entry with
  | none => .ok acc
  | some (userAddr, workerAddr) => do
      let rate ← auditRate acc.state entry
      if forceSecondVerification acc.state.params entry ||
          shouldTriggerSecondVerification env ctx entry.taskId rate then
        return { acc with state := acc.state.mapLedger (park ctx.height · entry) }
      else
        let s := countVerifiers env acc.state entry
        let s ← trackTokens env ctx s entry workerAddr
        let fee ← actualFee s.params entry
        let (l, _) ← unfreezeBalance s.ledger userAddr entry.taskId
        settleDirect env ctx acc { s with ledger := l } entry userAddr workerAddr fee

/-- The statistics and the record of a finished batch. -/
def closeBatch (ctx : Ctx) (acc : BatchAcc) (msg : MsgBatchSettlement) :
    Exec (State × UInt64) := do
  let s := acc.state
  let count := acc.successCount + acc.failCount
  let stats := s.book.getEpochStats ctx.epoch
  let totalFees ← MathInt.add stats.totalFees acc.totalFees
  let stats := { stats with
    totalSettled := stats.totalSettled + count.toUInt64
    failSettled := stats.failSettled + acc.failCount.toUInt64
    totalFees := totalFees
    verificationCount := stats.verificationCount + count.toUInt64 * 3 }
  let book := s.book.setEpochStats stats
  let batchId := book.getNextBatchId
  let batchFees ← Coin.new "ufai" acc.totalFees
  let br : BatchRecord := ⟨batchId, msg.proposer, msg.merkleRoot, count, batchFees, ctx.height⟩
  let book := { book with
    batchRecords := book.batchRecords.set br.batchId br rfl
    batchCounter := some batchId }
  return ({ s with book := book }, batchId)

/-- `ProcessBatchSettlement`.  The rejections that jail the proposer return an
error as well, so the transaction that carries them is rolled back. -/
def processBatchSettlement (ctx : Ctx) (s : State) (msg : MsgBatchSettlement) :
    Exec (State × Except Err UInt64) :=
  if msg.resultCount ≠ lenUInt32 msg.entries then do
    let s ← s.jailWorkerAt env ctx msg.proposer
    return (s, .error (.wrap .invalidSettlement
      "result_count mismatch with actual entries, proposer jailed"))
  else
    match verifyProposerSigOnRoot env s msg.proposer msg.merkleRoot msg.proposerSig with
    | .error _ =>
        .ok (s, .error (.wrap .invalidSettlement "proposer signature verification failed"))
    | .ok () =>
        if !verifyMerkleRoot env msg.merkleRoot msg.entries then do
          let s ← s.jailWorkerAt env ctx msg.proposer
          return (s, .error (.wrap .invalidSettlement
            "merkle root verification failed, proposer jailed"))
        else do
          let acc ← msg.entries.foldlM (settleEntry env ctx) ⟨s, 0, 0, 0⟩
          let (s, batchId) ← closeBatch ctx acc msg
          return (s, .ok batchId)

/-! ## what the parts do -/

/-- What the chain knows of an entry it looks at. -/
structure Admissible (height : Int) (l : Ledger) (entry : SettlementEntry)
    (userAddr workerAddr : Addr) : Prop where
  denom : entry.nominal.denom = defaultDenom
  unsettled : l.getSettledTask entry.taskId = none
  unmarked : l.hasFraudMark entry.taskId = false
  unexpired : ¬ (0 < entry.expireBlock ∧ entry.expireBlock < height)
  user : env.accAddressFromBech32 entry.userAddress = some userAddr
  worker : env.accAddressFromBech32 entry.workerAddress = some workerAddr
  account : ∃ ia, l.getInferenceAccount userAddr = some ia

variable {env}

theorem admitEntry_eq_some (h : admitEntry env height l entry = some (userAddr, workerAddr)) :
    Admissible env height l entry userAddr workerAddr := by
  unfold admitEntry at h
  split at h
  · cases h
  next hdenom =>
  split at h
  · cases h
  next hsettled =>
  split at h
  · cases h
  next hmark =>
  split at h
  · cases h
  next hexpire =>
  split at h
  · cases h
  split at h
  · cases h
  split at h
  · cases h
  split at h
  · next u w hu hw =>
    split at h
    · cases h
    next hia =>
    obtain ⟨rfl, rfl⟩ := h
    exact ⟨not_not.mp hdenom, by simpa using hsettled, by simpa using hmark, hexpire, hu, hw,
      Option.isSome_iff_exists.mp (by simpa [Option.isSome_iff_ne_none] using hia)⟩
  · contradiction

/-- The fee lies between zero and the nominal amount of a sane entry. -/
theorem actualFee_spec {params : Params} (hdenom : entry.nominal.denom = defaultDenom)
    (h : actualFee params entry = .ok fee) : fee.denom = defaultDenom ∧
    (0 ≤ entry.nominal.amount → 0 ≤ fee.amount ∧ fee.amount ≤ entry.nominal.amount) := by
  unfold actualFee at h
  unfold SettlementEntry.nominal at hdenom ⊢
  split at h
  · next hper =>
    rw [if_pos hper] at hdenom ⊢
    split at h
    · obtain ⟨cap, hcap, h⟩ := bind_eq_ok.mp h
      obtain ⟨-, -, hcap⟩ := uint64_eq_ok.mp hcap
      obtain ⟨-, hnn, rfl⟩ := Coin.new_eq_ok.mp h
      refine ⟨rfl, fun _ => ⟨hnn, ?_⟩⟩
      rw [← hcap]
      exact Int.ofNat_le.mpr (UInt64.le_iff_toNat_le.mp (calculatePerTokenFee_le ..))
    · grind
  · grind

theorem splitShortfall_eq {short : Bool}
    (h : splitShortfall short fee balance = .ok (payable, shortfall)) :
    payable = ⟨fee.denom, if short then balance else fee.amount⟩ ∧
      shortfall = ⟨fee.denom, if short then fee.amount - balance else 0⟩ ∧
      (short = true → 0 ≤ balance) := by
  obtain ⟨noShortfall, hnone, h⟩ := bind_eq_ok.mp h
  obtain ⟨-, -, rfl⟩ := Coin.new_eq_ok.mp hnone
  split at h
  · next hshort =>
    obtain ⟨p, hp, h⟩ := bind_eq_ok.mp h
    obtain ⟨-, hnn, rfl⟩ := Coin.new_eq_ok.mp hp
    obtain ⟨m, hm, h⟩ := bind_eq_ok.mp h
    obtain ⟨rfl, -⟩ := sub_eq_ok.mp hm
    obtain ⟨sh, hsh, h⟩ := bind_eq_ok.mp h
    obtain ⟨-, -, rfl⟩ := Coin.new_eq_ok.mp hsh
    obtain ⟨rfl, rfl⟩ := h
    simp [hshort, hnn]
  · next hshort =>
    obtain ⟨rfl, rfl⟩ := h
    simp [hshort]

/-- A capped fee is the smaller of the fee and the balance. -/
theorem splitShortfall_sub {short : Bool} {held rest : Coin}
    (hsplit : splitShortfall short fee held.amount = .ok (payable, shortfall))
    (hsub : held.sub payable = .ok rest) (hshort : short = true → held.amount < fee.amount) :
    payable = ⟨fee.denom, min fee.amount held.amount⟩ ∧ held.denom = fee.denom ∧
    shortfall.amount = fee.amount - payable.amount ∧
    rest = ⟨held.denom, held.amount - payable.amount⟩ := by
  obtain ⟨rfl, rfl, -⟩ := splitShortfall_eq hsplit
  obtain ⟨hsame, -, hle, rfl⟩ := Coin.sub_eq_ok.mp hsub
  refine ⟨?_, hsame, ?_, rfl⟩
  all_goals cases short with
  | true => simp [min_eq_right (Int.le_of_lt (hshort rfl))]
  | false => grind

section
variable (hdenom : fee.denom = defaultDenom)
include hdenom

theorem payOutSuccess_paid : OnValue (OnValue fun r => 0 ≤ r.2.verifiers ∧ 0 ≤ r.2.executor ∧
      r.2.verifiers + r.2.executor =
        (if 0 < fee.amount then fee.amount - fundPart s.params fee.amount else 0) ∧
      State.Pays env s r.1 (r.2.verifiers + r.2.executor) ∧
      State.Receives env s r.1 (if 0 < fee.amount then
        successPayments env s.params fee.amount workerAddr (uniqueAddresses vs) else []))
      (payOutSuccess env s fee workerAddr vs) := by
  refine .ite (fun hpos => ?_) fun hpos => ?_ <;>
    simp only [Coin.isPositive, decide_eq_true_eq] at hpos
  · rw [if_pos hpos, if_pos hpos]
    exact distributeSuccessFee_paid hdenom
  · rw [if_neg hpos, if_neg hpos]
    exact ⟨Int.le_refl 0, Int.le_refl 0, rfl, .refl s, .refl s⟩

theorem payOutFail_paid : OnValue (OnValue fun r => 0 ≤ r.2.verifiers ∧ r.2.executor = 0 ∧
    State.Pays env s r.1 r.2.verifiers ∧
    (0 < fee.amount → r.2.verifiers ≤ failVerifierPart s.params fee.amount) ∧
    (fee.amount ≤ 0 → r.2.verifiers = 0)) (payOutFail env s fee vs) := by
  refine .ite (fun hpos => ?_) fun hpos => ?_ <;>
    simp only [Coin.isPositive, decide_eq_true_eq] at hpos
  · refine (distributeFailFee_paid hdenom).mono fun r hr => hr.mono fun r hr => ?_
    obtain ⟨hv, he, hpays, hle⟩ := hr
    exact ⟨hv, he, hpays, fun _ => hle (by omega), fun hneg => absurd hpos (by omega)⟩
  · exact ⟨Int.le_refl 0, rfl, .refl s, fun h => absurd h hpos, fun _ => rfl⟩

/-- A success split whose payouts are accepted goes through. -/
theorem payOutSuccess_accepted (hpay : Payable env s fee.amount workerAddr (vs.map (·.address))) :
    OnValue Returns (payOutSuccess env s fee workerAddr vs) := by
  have hvs : ∀ v ∈ vs, ∀ a, env.accAddressFromBech32 v.address = some a → env.Accepts a :=
    fun v hv => hpay.verifiers v.address (List.mem_map_of_mem hv)
  have hpart : ∀ r : UInt32, 0 ≤ (fee.amount * (r.toNat : Int)).tdiv 1000 := fun r =>
    Int.tdiv_nonneg (mul_nonneg hpay.nonneg (Int.natCast_nonneg _)) (by decide)
  refine .either (.after fun total htotal => .after fun fund hfund => .after fun r hr => ?_) <|
    returns_ok _
  obtain ⟨-, -, rfl⟩ := share_eq_ok.mp htotal
  obtain ⟨-, -, rfl⟩ := share_eq_ok.mp hfund
  obtain ⟨⟨s₁, d⟩, rfl⟩ :=
    (shareAmongVerifiers_accepted hdenom (hpart _) hvs hpay.successShare).get hr
  have hleft := (shareAmongVerifiers_spec hdenom hr).2.1.balance
  refine .after fun rest hrest => .after fun amount hamount => .after fun r hr => ?_
  obtain ⟨rfl, -⟩ := sub_eq_ok.mp hrest
  obtain ⟨rfl, -⟩ := sub_eq_ok.mp hamount
  have hfund := hpart s.params.multiVerificationFundRatio
  have hfunds := hpay.funds
  obtain ⟨s₂, rfl⟩ := (payExecutor_accepted hdenom hpay.worker (by omega)).get hr
  exact returns_ok _

/-- A fail split whose payouts are accepted goes through. -/
theorem payOutFail_accepted (hpay : Payable env s fee.amount workerAddr (vs.map (·.address))) :
    OnValue Returns (payOutFail env s fee vs) := by
  have hshare : 0 ≤ failVerifierPart s.params fee.amount :=
    Int.tdiv_nonneg (mul_nonneg hpay.nonneg (Int.natCast_nonneg _)) (Int.natCast_nonneg _)
  refine .either (.either (returns_ok _) <| .after fun total htotal => ?_) <| returns_ok _
  obtain ⟨-, -, rfl⟩ := share_eq_ok.mp htotal
  refine .after fun r hr => ?_
  obtain ⟨⟨s₁, d⟩, rfl⟩ := (shareAmongVerifiers_accepted hdenom hshare (fun v hv =>
    hpay.verifiers v.address (List.mem_map_of_mem hv)) hpay.failShare).get hr
  exact returns_ok _

end

/-- Only the counts of the verifiers are touched. -/
theorem countVerifiers_frame (s : State) (entry : SettlementEntry) : ∃ counts, countVerifiers env s
    entry = { s with book := { s.book with verifierEpochCount := counts } } := by
  refine List.foldlRecOn (motive := fun s' => ∃ counts,
    s' = { s with book := { s.book with verifierEpochCount := counts } }) _ _ ?_ ?_
  · exact ⟨_, rfl⟩
  · rintro _ ⟨counts, rfl⟩ v -
    unfold incrementVerifierEpochCount
    split <;> exact ⟨_, rfl⟩

theorem quiet_countVerifiers (s : State) (entry : SettlementEntry) :
    State.Quiet env s (countVerifiers env s entry) := by
  obtain ⟨_, h⟩ := @countVerifiers_frame env s entry
  rw [h]
  exact .ofBook rfl

theorem quiet_trackTokens :
    OnValue (State.Quiet env s) (trackTokens env ctx s entry workerAddr) := by
  refine .either ?_ <| .ok (.refl s)
  refine OnValue.bind (Q := State.Quiet env s) ?_ fun s₁ hquiet =>
    .ok (hquiet.trans (State.Quiet.ofBook (epochStats_updateTokenMismatchPairs ..)))
  exact .either (State.quiet_incrementDishonestCount) <| .ok (.refl s)

theorem quiet_creditWorker :
    OnValue (State.Quiet env s) (creditWorker ctx s entry workerAddr fee) := by
  have hstreak : State.Quiet env s
      { s with world := s.world.incrementSuccessStreak workerAddr } :=
    State.Quiet.ofWorld (World.frame_updateWorker ..)
  refine .after fun w hw => .ok (hstreak.trans ?_)
  generalize { s with world := s.world.incrementSuccessStreak workerAddr } = s₁ at hw
  have hreset : State.Quiet env s₁
      (if 50 ≤ s₁.world.getSuccessStreak workerAddr then s₁.resetDishonestCount workerAddr
        else s₁) := by
    split
    · exact State.quiet_resetDishonestCount s₁ workerAddr
    · exact .refl s₁
  refine hreset.trans (State.Quiet.ofWorld ?_)
  have hrep : World.Frame env.toHost w (w.reputationOnAccept workerAddr) :=
    World.frame_updateWorker ..
  refine ((World.frame_updateWorkerStats.get hw).trans hrep).trans ?_
  split
  · exact World.frame_updateAvgLatency ..
  · exact World.Frame.refl _

/-- Statistics of a worker are no coins. -/
theorem bank_updateWorker (w : World) (addr : Addr) (f : Worker → Worker)
    (hf : ∀ worker, (f worker).address = worker.address) :
    (w.updateWorker addr f hf).bank = w.bank := by
  unfold World.updateWorker
  split <;> rfl

theorem bank_updateWorkerStats {w : World} {addr : Addr} :
    OnValue (fun w' => w'.bank = w.bank) (w.updateWorkerStats height addr fee) := by
  unfold World.updateWorkerStats
  split
  · exact .ok rfl
  · exact .after fun _ _ => .ok rfl

theorem bank_creditWorker :
    OnValue (fun s' => s'.world.bank = s.world.bank) (creditWorker ctx s entry workerAddr fee) := by
  have hlatency : ∀ w₂ : World, (if 0 < entry.latencyMs then
      w₂.updateAvgLatency workerAddr entry.latencyMs.toUInt32 else w₂).bank = w₂.bank := by
    intro w₂
    unfold World.updateAvgLatency
    split
    · split
      · rfl
      · exact bank_updateWorker ..
    · rfl
  have hstreak : (s.world.incrementSuccessStreak workerAddr).bank = s.world.bank :=
    bank_updateWorker _ _ _ _
  refine bank_updateWorkerStats.bind fun w₁ hw₁ => .ok ?_
  refine (hlatency _).trans ((bank_updateWorker ..).trans (hw₁.trans ?_))
  split <;> exact hstreak

/-- The payouts are those of the coins alone. -/
theorem State.Receives.of_bank {t t' : State} {ps : List (Addr × Int)}
    (h : State.Receives env s s' ps) (hs : t.world.bank = s.world.bank)
    (hs' : t'.world.bank = s'.world.bank) : State.Receives env t t' ps := by
  intro a ha
  have hcoins := h a ha
  rw [State.coinsOf, State.coinsOf] at hcoins ⊢
  rw [hs, hs', hcoins]

/-! ## what an entry can do -/

/-- The fail fee due for a fee. -/
def failFee (params : Params) (fee : Int) : Int :=
  (fee * params.failSettlementFeeRatio.toNat).tdiv 1000

/-- A payment under the success split: capped at the balance, all of it handed
on but the fund's part. -/
structure SuccessPayment (params : Params) (balance : Int) (p : Payment) : Prop where
  paid : p.paid = min p.due balance
  executor : 0 ≤ p.executor
  verifiers : 0 ≤ p.verifiers
  out : p.verifiers + p.executor =
    if 0 < p.paid then p.paid - fundPart params p.paid else 0

/-- A payment under the fail split: capped at the balance, at most the
verifiers' part handed on. -/
structure FailPayment (params : Params) (balance : Int) (p : Payment) : Prop where
  due : 0 ≤ p.due
  paid : p.paid = min p.due balance
  executor : p.executor = 0
  verifiers : 0 ≤ p.verifiers
  out : 0 < p.paid → p.verifiers ≤ failVerifierPart params p.paid
  none : p.paid ≤ 0 → p.verifiers = 0

namespace Ledger

/-- Settle a task: debit the user, write the record, note the payment. -/
def settle (l : Ledger) (height : Int) (ia : InferenceAccount) (p : Payment)
    (st : SettledTaskID) : Ledger :=
  ((l.debit ia p.paid).setSettledTask st).note height (.settled p)

end Ledger

/-- The payment for a fee: the fee under the success split, or the fail fee
under the fail split. -/
inductive Charge (params : Params) (fee balance : Int) (p : Payment) : Bool → Prop
  | success (due : p.due = fee) (pay : SuccessPayment params balance p) :
      Charge params fee balance p true
  | fail (due : p.due = failFee params fee) (pay : FailPayment params balance p) :
      Charge params fee balance p false

/-- The final status of a charged task. -/
def chargedStatus (asSuccess : Bool) : TaskStatus := if asSuccess then .settled else .failSettled

section
variable (env : Env) (height : Int) (params : Params) (entry : SettlementEntry) (l : Ledger)

/-- What an entry of a batch can do to the ledger, with what leaves the
settlement account and what is counted for the epoch's fund. -/
inductive EntryStep : Ledger → Int → Int → Prop
  /-- Not looked at. -/
  | skipped : EntryStep l 0 0
  /-- Drawn for audit. -/
  | parked (u w : Addr) (adm : Admissible env height l entry u w) :
      EntryStep (park height l entry) 0 0
  /-- A payout was refused, after the reservation was released. -/
  | refused (u w : Addr) (adm : Admissible env height l entry u w) :
      EntryStep (l.release u entry.taskId) 0 0
  /-- A per-token fail whose fail fee was not paid. -/
  | unpaid (u w : Addr) (adm : Admissible env height l entry u w)
      (status : entry.status ≠ .success) (perToken : entry.isPerToken = true) (fee : Coin)
      (hfee : actualFee params entry = .ok fee) :
      EntryStep ((l.release u entry.taskId).setSettledTask
          (recordOf height entry .failSettled Coin.zero)) 0 fee.amount
  | charged (u w : Addr) (adm : Admissible env height l entry u w) (fee : Coin)
      (hfee : actualFee params entry = .ok fee) (ia : InferenceAccount)
      (account : (l.release u entry.taskId).getInferenceAccount u = some ia) (p : Payment)
      (task : p.task = entry.taskId) (user : p.user = u)
      (charge : Charge params fee.amount ia.balance.amount p (entry.status == .success))
      (recorded : Coin) (hrecorded : entry.status = .success → recorded = ⟨defaultDenom, p.paid⟩) :
      EntryStep ((l.release u entry.taskId).settle height ia p
          (recordOf height entry (chargedStatus (entry.status == .success)) recorded))
        (p.verifiers + p.executor)
        (if entry.status = .success then p.paid else fee.amount)

end

/-- Debit, payout, bookkeeping, record: together they settle the task. -/
theorem State.Pays.settle {s₁ s₂ : State} {x : Int} {p : Payment} {st : SettledTaskID}
    (hpays : State.Pays env (s.mapLedger (·.debit ia p.paid)) s₁ x)
    (hquiet : State.Quiet env s₁ s₂) : State.Moves env s
    (s₂.mapLedger fun l => (l.setSettledTask st).note height (.settled p))
    (s.ledger.settle height ia p st) x := by
  have hstart : State.Moves env s s s.ledger 0 := .refl s
  have hmove := (((hstart.map (·.debit ia p.paid)).pays hpays).quiet hquiet).map
    fun l => (l.setSettledTask st).note height (.settled p)
  rwa [Int.zero_add] at hmove

theorem settleSuccess_moves (hdenom : fee.denom = defaultDenom) :
    OnValue (fun o => ∀ r ∈ o, ∃ p : Payment, p.task = entry.taskId ∧ p.user = userAddr ∧
      p.due = fee.amount ∧ p.paid = r.2 ∧ SuccessPayment s.params ia.balance.amount p ∧
      State.Moves env s r.1
        (s.ledger.settle ctx.height ia p (recordOf ctx.height entry .settled ⟨fee.denom, r.2⟩))
        (p.verifiers + p.executor) ∧
      State.Receives env s r.1 (if 0 < p.paid then successPayments env s.params p.paid workerAddr
        (uniqueAddresses entry.verifierResults) else []))
      (settleSuccess env ctx s entry userAddr workerAddr ia fee) := by
  refine .after fun ⟨payable, shortfall⟩ hsplit => .after fun balance hsub => ?_
  obtain ⟨rfl, -, -, rfl⟩ := splitShortfall_sub hsplit hsub of_decide_eq_true
  refine (payOutSuccess_paid (by exact hdenom)).bind_result (fun _ => .none) ?_
  rintro ⟨s₁, split⟩ ⟨hv, he, hout, hpays, hreceives⟩
  refine .after fun s₂ hcredit => .after fun _ _ => ?_
  have hpays : State.Pays env (s.mapLedger (·.debit ia (min fee.amount ia.balance.amount)))
    s₁ (split.verifiers + split.executor) := hpays
  have hbank : s₂.world.bank = s₁.world.bank := bank_creditWorker.get hcredit
  exact .some ⟨⟨entry.taskId, userAddr, fee.amount, min fee.amount ia.balance.amount,
    split.executor, split.verifiers⟩, rfl, rfl, rfl, rfl, ⟨rfl, he, hv, hout⟩,
    State.Pays.settle hpays (quiet_creditWorker.get hcredit),
    hreceives.of_bank rfl hbank⟩

/-- A success whose payouts are accepted is not refused. -/
theorem settleSuccess_accepted (hdenom : fee.denom = defaultDenom)
    (hpay : Payable env s (min fee.amount ia.balance.amount) workerAddr
    (entry.verifierResults.map (·.address))) :
    OnValue (· ≠ none) (settleSuccess env ctx s entry userAddr workerAddr ia fee) := by
  refine .after fun ⟨payable, _⟩ hsplit => .after fun balance hsub => .after fun r hr => ?_
  obtain ⟨rfl, -, -, -⟩ := splitShortfall_sub hsplit hsub of_decide_eq_true
  obtain ⟨⟨s₁, split⟩, rfl⟩ :=
    (payOutSuccess_accepted (by exact hdenom) (by exact hpay.mapLedger)).get hr
  exact .after fun _ _ => .after fun _ _ => Option.some_ne_none _

section Fail
variable {short : Coin → Bool} {task : TaskId} {rows : List VerifierResult}
  {record : Coin → SettledTaskID}
  (hshort : ∀ c, short c = true → ia.balance.amount < c.amount)
  (hdenom : ia.balance.denom = fee.denom → fee.denom = defaultDenom)

include hshort hdenom

theorem settleFail_moves :
    OnValue (fun o => ∀ s' ∈ o, ∃ (p : Payment) (recorded : Coin), p.task = task ∧
    p.user = userAddr ∧ p.due = failFee s.params fee.amount ∧
    FailPayment s.params ia.balance.amount p ∧
    State.Moves env s s' (s.ledger.settle ctx.height ia p (record recorded))
    (p.verifiers + p.executor))
    (settleFail env short ctx s task rows record userAddr workerAddr ia fee) := by
  refine .after fun amount hamount => .after fun coin hcoin => ?_
  obtain ⟨-, -, rfl⟩ := share_eq_ok.mp hamount
  obtain ⟨-, hnn, rfl⟩ := Coin.new_eq_ok.mp hcoin
  refine .after fun ⟨payable, shortfall⟩ hsplit => .after fun balance hsub => ?_
  obtain ⟨rfl, hsame, -, rfl⟩ := splitShortfall_sub hsplit hsub (hshort _)
  refine (payOutFail_paid (by exact hdenom hsame)).bind_result (fun _ => .none) ?_
  rintro ⟨s₁, split⟩ ⟨hv, he, hpays, hle, hzero⟩
  refine State.quiet_jailWorker.bind fun s₂ hjail => ?_
  have hpays : State.Pays env (s.mapLedger
      (·.debit ia (min (failFee s.params fee.amount) ia.balance.amount)))
      s₁ (split.verifiers + split.executor) := by
    rw [he, Int.add_zero]
    exact hpays
  exact .some ⟨⟨task, userAddr, failFee s.params fee.amount,
    min (failFee s.params fee.amount) ia.balance.amount, split.executor, split.verifiers⟩, _,
    rfl, rfl, rfl, ⟨hnn, rfl, he, hv, hle, hzero⟩, State.Pays.settle hpays hjail⟩

/-- A fail whose payouts are accepted is not refused. -/
theorem settleFail_accepted
    (hpay : Payable env s (min (failFee s.params fee.amount) ia.balance.amount) workerAddr
    (rows.map (·.address))) : OnValue (· ≠ none)
    (settleFail env short ctx s task rows record userAddr workerAddr ia fee) := by
  refine .after fun amount hamount => .after fun coin hcoin => ?_
  obtain ⟨-, -, rfl⟩ := share_eq_ok.mp hamount
  obtain ⟨-, -, rfl⟩ := Coin.new_eq_ok.mp hcoin
  refine .after fun ⟨payable, _⟩ hsplit => .after fun balance hsub => .after fun r hr => ?_
  obtain ⟨rfl, hsame, -, -⟩ := splitShortfall_sub hsplit hsub (hshort _)
  obtain ⟨⟨s₁, split⟩, rfl⟩ :=
    (payOutFail_accepted (by exact hdenom hsame) (by exact hpay.mapLedger)).get hr
  exact .after fun _ _ => Option.some_ne_none _

end Fail

/-- A per-token fail pays the fail fee, or leaves the state alone. -/
theorem payFailPerToken_cases {amount : Int} :
    OnValue (fun s' => s' = s ∨ ∃ p : Payment, p.task = entry.taskId ∧ p.user = userAddr ∧
    p.due = amount ∧ FailPayment s.params ia.balance.amount p ∧ State.Moves env s s'
    ((s.ledger.debit ia p.paid).note ctx.height (.settled p)) (p.verifiers + p.executor))
    (payFailPerToken env ctx s entry userAddr ia ⟨defaultDenom, amount⟩) := by
  refine .after fun b hb => .ite (fun hc => ?_) fun _ => .inl rfl
  obtain ⟨-, rfl⟩ := Coin.isGTE_eq_ok.mp hb
  simp only [Coin.isPositive, Bool.and_eq_true, decide_eq_true_eq] at hc
  obtain ⟨hle, hpos⟩ := hc
  refine .after fun balance hsub => ?_
  obtain ⟨-, -, -, rfl⟩ := Coin.sub_eq_ok.mp hsub
  refine (distributeFailFee_paid rfl).bind_result (fun _ => .inl rfl) ?_
  rintro ⟨s₁, split⟩ ⟨hv, he, hpays, hpart⟩
  have hpays : State.Pays env (s.mapLedger (·.debit ia amount)) s₁
      (split.verifiers + split.executor) := by
    rw [he, Int.add_zero]
    exact hpays
  have hmove := (((State.Moves.refl s).map (·.debit ia amount)).pays hpays).map
    fun l => l.note ctx.height
      (.settled ⟨entry.taskId, userAddr, amount, amount, split.executor, split.verifiers⟩)
  rw [Int.zero_add] at hmove
  have hnn : 0 ≤ amount := Int.le_of_lt hpos
  exact .inr ⟨⟨entry.taskId, userAddr, amount, amount, split.executor, split.verifiers⟩,
    rfl, rfl, rfl, ⟨hnn, (min_eq_left hle).symm, he, hv, fun _ => hpart hnn,
      fun hneg => absurd hpos (by simpa using hneg)⟩, hmove⟩

/-- A per-token fail is recorded, paid or not. -/
theorem settleFailPerToken_cases : OnValue (fun s' => State.Moves env s s'
    (s.ledger.setSettledTask (recordOf ctx.height entry .failSettled Coin.zero)) 0 ∨
    ∃ p : Payment, p.task = entry.taskId ∧ p.user = userAddr ∧
    p.due = failFee s.params fee.amount ∧ FailPayment s.params ia.balance.amount p ∧
    State.Moves env s s'
    (s.ledger.settle ctx.height ia p (recordOf ctx.height entry .failSettled Coin.zero))
    (p.verifiers + p.executor))
    (settleFailPerToken env ctx s entry userAddr workerAddr ia fee) := by
  refine .after fun amount hamount => .after fun coin hcoin => ?_
  obtain ⟨-, -, rfl⟩ := share_eq_ok.mp hamount
  obtain ⟨-, -, rfl⟩ := Coin.new_eq_ok.mp hcoin
  refine payFailPerToken_cases.bind fun s₁ hpay => State.quiet_jailWorker.mono fun s₂ hjail => ?_
  obtain rfl | ⟨p, htask, huser, hdue, hp, hmove⟩ := hpay
  · exact .inl (((State.Moves.refl s₁).map (·.setSettledTask _)).quiet hjail)
  · exact .inr ⟨p, htask, huser, hdue, hp, (hmove.map (·.setSettledTask _)).quiet hjail⟩

/-- What the entry does once its reservation is released. -/
theorem settleDirect_cases {u w : Addr} (adm : Admissible env ctx.height l entry u w)
    (hfee : actualFee s.params entry = .ok fee) (hrelease : s.ledger = l.release u entry.taskId) :
    OnValue (fun acc' => ∃ l' out counted,
    EntryStep env ctx.height s.params entry l l' out counted ∧
    State.Moves env s acc'.state l' out ∧ acc'.totalFees = acc.totalFees + counted)
    (settleDirect env ctx acc s entry u w fee) := by
  have hdenom := (actualFee_spec adm.denom hfee).1
  unfold settleDirect
  split
  · exact .error
  next ia hia =>
  replace hia : (l.release u entry.taskId).getInferenceAccount u = some ia := hrelease ▸ hia
  have hrefused : ∃ l' out counted, EntryStep env ctx.height s.params entry l l' out counted ∧
      State.Moves env s s l' out ∧ acc.totalFees = acc.totalFees + counted :=
    ⟨_, _, _, .refused u w adm, hrelease ▸ State.Moves.refl s, by simp⟩
  refine .ite (fun hstatus => ?_) fun hstatus => ?_
  · refine (settleSuccess_moves hdenom).bind_option (.ok hrefused) ?_
    rintro ⟨s₁, paid⟩ ⟨p, htask, huser, hdue, rfl, hp, hmove, -⟩
    refine .after fun total htotal => ?_
    obtain ⟨rfl, -⟩ := add_eq_ok.mp htotal
    rw [hrelease] at hmove
    have hcharge : Charge s.params fee.amount ia.balance.amount p (entry.status == .success) := by
      rw [beq_iff_eq.mpr hstatus]
      exact .success hdue hp
    have hstep := EntryStep.charged u w adm fee hfee ia hia p htask huser hcharge
      ⟨fee.denom, p.paid⟩ (fun _ => by rw [hdenom])
    rw [if_pos hstatus, beq_iff_eq.mpr hstatus] at hstep
    exact ⟨_, _, _, hstep, hmove, rfl⟩
  -- either way of charging a fail counts the whole fee
  have hcharged : ∀ (p : Payment) (c : Coin), p.task = entry.taskId → p.user = u →
      p.due = failFee s.params fee.amount → FailPayment s.params ia.balance.amount p →
      EntryStep env ctx.height s.params entry l ((l.release u entry.taskId).settle ctx.height ia p
        (recordOf ctx.height entry .failSettled c)) (p.verifiers + p.executor) fee.amount := by
    intro p c htask huser hdue hp
    have hbeq : (entry.status == .success) = false := beq_eq_false_iff_ne.mpr hstatus
    have hstep := EntryStep.charged u w adm fee hfee ia hia p htask huser
      (by rw [hbeq]; exact .fail hdue hp) c (fun h => absurd h hstatus)
    rwa [if_neg hstatus, hbeq] at hstep
  refine .ite (fun hper => ?_) fun hper => ?_
  · refine settleFailPerToken_cases.bind fun s₁ hsettle => .after fun total htotal => ?_
    obtain ⟨rfl, -⟩ := add_eq_ok.mp htotal
    rw [hrelease] at hsettle
    obtain hmove | ⟨p, htask, huser, hdue, hp, hmove⟩ := hsettle
    · exact ⟨_, _, _, .unpaid u w adm hstatus hper fee hfee, hmove, rfl⟩
    · exact ⟨_, _, _, hcharged p _ htask huser hdue hp, hmove, rfl⟩
  · obtain rfl : entry.fee = fee := by
      simpa only [actualFee, hper, Bool.false_eq_true, if_false, Except.ok.injEq] using hfee
    refine (settleFail_moves (fun _ => of_decide_eq_true) fun _ => hdenom).bind_option
      (.ok hrefused) ?_
    rintro s₁ ⟨p, c, htask, huser, hdue, hp, hmove⟩
    refine .after fun total htotal => ?_
    obtain ⟨rfl, -⟩ := add_eq_ok.mp htotal
    rw [hrelease] at hmove
    exact ⟨_, _, _, hcharged p c htask huser hdue hp, hmove, rfl⟩

/-- **One turn of the batch loop** is an `EntryStep` of the ledger. -/
theorem settleEntry_cases : OnValue (fun acc' => ∃ l' out counted,
    EntryStep env ctx.height acc.state.params entry acc.state.ledger l' out counted ∧
    State.Moves env acc.state acc'.state l' out ∧
    acc'.totalFees = acc.totalFees + counted) (settleEntry env ctx acc entry) := by
  unfold settleEntry
  split
  · exact .ok ⟨_, _, _, .skipped, .refl _, by omega⟩
  next u w hadm =>
  have adm := admitEntry_eq_some hadm
  refine .after fun rate _ => .either (.ok ?_) ?_
  · exact ⟨_, _, _, .parked u w adm,
      (State.Moves.refl acc.state).map (park ctx.height · entry), by simp⟩
  refine quiet_trackTokens.bind fun s₁ htrack => .after fun fee hfee =>
    .after fun ⟨l, r⟩ hunfreeze => ?_
  have hquiet : State.Quiet env acc.state s₁ := (quiet_countVerifiers acc.state entry).trans htrack
  obtain rfl := unfreezeBalance_eq hunfreeze
  have hrelease : s₁.ledger.release u entry.taskId = acc.state.ledger.release u entry.taskId := by
    rw [hquiet.ledger]
  refine (settleDirect_cases (s := s₁.mapLedger (·.release u entry.taskId)) adm hfee
    hrelease).mono fun acc' hacc' => ?_
  obtain ⟨l', out, counted, hstep, hmove, hfees⟩ := hacc'
  exact ⟨l', out, counted, hquiet.params ▸ hstep,
    hmove.after (hquiet.moves.map (·.release u entry.taskId)), hfees⟩

/-- **The end of a batch** counts its fees for the epoch and changes nothing
else that the ledger proofs look at. -/
theorem closeBatch_spec {msg : MsgBatchSettlement} :
    OnValue (fun r => r.1.ledger = acc.state.ledger ∧ r.1.params = acc.state.params ∧
      r.1.world = acc.state.world ∧ ∀ epoch, r.1.book.fees epoch =
        acc.state.book.fees epoch + if epoch = ctx.epoch then acc.totalFees else 0)
      (closeBatch ctx acc msg) := by
  refine .after fun total htotal => .after fun _ _ => .ok ⟨rfl, rfl, rfl, fun epoch => ?_⟩
  obtain ⟨rfl, -⟩ := add_eq_ok.mp htotal
  have hepoch := acc.state.book.epoch_getEpochStats ctx.epoch
  show (Book.getEpochStats (acc.state.book.setEpochStats _) epoch).totalFees = _
  rw [Book.getEpochStats_set]
  rw [hepoch]
  by_cases he : ctx.epoch = epoch
  · rw [if_pos he, if_pos he.symm, ← he]
    rfl
  · rw [if_neg he, if_neg fun h => he h.symm, Int.add_zero]
    rfl

end FunaiChain.Settlement
