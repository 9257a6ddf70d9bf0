import FunaiChain.Settlement.Direct

/-!
# FunaiChain.Settlement.Price

What a success costs, and who gets it.  Settled directly or after an audit, a fee is
split alike (`Settles`), and the shares add up to the fee (`fee_split_exact`).  But the
direct way bills the counts that `ResolveTokenCounts` takes from the verifiers, or the
whole `MaxFee` while per-token billing is switched off, and the audit bills the counts
that the worker reported, whatever the switch says.  So the price is the same exactly
when those counts cost the same, or more than `MaxFee` (`audit_price_iff`).
-/

namespace FunaiChain.Settlement

variable {env : Env} {s : State} {fee : Coin}

section
open Ledger
variable {ctx : Ctx} {entry : SettlementEntry} {s' t : State} {height : Int} {a addr u w : Addr}
  {ia : InferenceAccount} {w' : World} {params : Params} {apt : SecondVerificationPendingTask}
  {host : Host} {ar : SecondVerificationRecord}

/-! ## the two prices -/

section
variable (params : Params) (entry : SettlementEntry)

/-- What counts of tokens cost at the rates of an entry. -/
def tokenCost (inputTokens outputTokens : UInt32) : Nat :=
  inputTokens.toNat * entry.feePerInputToken.toNat +
    outputTokens.toNat * entry.feePerOutputToken.toNat

/-- What the worker's own counts cost. -/
def reportedCost : Nat :=
  tokenCost entry entry.workerInputTokens entry.workerOutputTokens

/-- What the counts cost that the verifiers' reports leave. -/
def resolvedCost : Nat :=
  let r := resolveTokenCounts entry params.tokenCountTolerance params.tokenCountTolerancePct
  tokenCost entry r.inputTokens r.outputTokens

/-- The reported counts of a per-token entry reach its cap, or per-token billing
is on and they cost what the resolved ones do, up to the cap. -/
def SamePrice : Prop :=
  entry.isPerToken = true →
    if params.perTokenBillingEnabled then
      resolvedCost params entry = reportedCost entry ∨
        (entry.maxFee.amount ≤ resolvedCost params entry ∧ entry.maxFee.amount ≤ reportedCost entry)
    else entry.maxFee.amount ≤ reportedCost entry

end

instance (params : Params) (entry : SettlementEntry) : Decidable (SamePrice params entry) :=
  inferInstanceAs (Decidable (_ → _))

/-- A per-token price that is computed is the cost, capped. -/
theorem perTokenFee_eq {inputTokens outputTokens : UInt32} (h : (do
      let cap ← MathInt.uint64 entry.maxFee.amount
      Coin.new defaultDenom (MathInt.ofUInt64 (calculatePerTokenFee inputTokens outputTokens
        entry.feePerInputToken entry.feePerOutputToken cap))) = Except.ok fee) :
    fee = ⟨defaultDenom,
      min (tokenCost entry inputTokens outputTokens : Int) entry.maxFee.amount⟩ := by
  obtain ⟨cap, hcap, h⟩ := bind_eq_ok.mp h
  obtain ⟨-, -, hcap⟩ := MathInt.uint64_eq_ok.mp hcap
  obtain ⟨-, -, rfl⟩ := Coin.new_eq_ok.mp h
  have hprice := calculatePerTokenFee_toNat inputTokens outputTokens entry.feePerInputToken
    entry.feePerOutputToken cap
  have hcap' : (cap.toNat : Int) = entry.maxFee.amount := hcap
  congr 1
  change ((calculatePerTokenFee ..).toNat : Int) = _
  rw [hprice, ← hcap', Nat.cast_min]
  rfl

/-- The price after an audit. -/
theorem auditedFee_eq (h : auditedFee (pendingOf height entry) 0 = .ok fee) :
    fee = if entry.isPerToken then
      ⟨defaultDenom, min (reportedCost entry : Int) entry.maxFee.amount⟩ else entry.fee := by
  unfold auditedFee pendingOf at h
  cases hper : entry.isPerToken with
  | false => grind
  | true =>
    have hrates : (0 < entry.feePerInputToken || 0 < entry.feePerOutputToken) = true := by
      rw [(Bool.and_eq_true_iff.mp hper).1, Bool.true_or]
    simp only [hper, if_true, hrates, UInt32.lt_irrefl, if_false] at h ⊢
    exact perTokenFee_eq h

theorem auditedFee_denom (hdenom : entry.nominal.denom = defaultDenom)
    (h : auditedFee (pendingOf height entry) 0 = .ok fee) : fee.denom = defaultDenom := by
  rw [auditedFee_eq h]
  unfold SettlementEntry.nominal at hdenom
  split
  · rfl
  · next hper => rwa [if_neg hper] at hdenom

/-- The direct price. -/
theorem actualFee_eq (h : actualFee params entry = .ok fee) :
    fee = if entry.isPerToken then
      if params.perTokenBillingEnabled then
        ⟨defaultDenom, min (resolvedCost params entry : Int) entry.maxFee.amount⟩
      else entry.maxFee
    else entry.fee := by
  refine OnValue.get (Q := (· = _)) ?_ h
  refine .ite (fun hper => .ite (fun hbilling => .of_forall fun fee h => ?_) fun hbilling => .ok ?_)
    fun hper => .ok (if_neg hper).symm
  · rw [if_pos hper, if_pos hbilling]
    exact perTokenFee_eq h
  · rw [if_pos hper, if_neg hbilling]

/-- The two prices agree exactly under the condition. -/
theorem samePrice_iff {fee' : Coin} (hfee : actualFee params entry = .ok fee)
    (hfee' : auditedFee (pendingOf height entry) 0 = .ok fee') :
    fee.amount = fee'.amount ↔ SamePrice params entry := by
  rw [actualFee_eq hfee, auditedFee_eq hfee']
  unfold SamePrice
  cases entry.isPerToken with
  | false => simp
  | true => grind

/-! ## the two ways of settling -/

/-- The rows of a pending task share like the rows of the entry. -/
theorem uniqueAddresses_verifierRows (height : Int) (entry : SettlementEntry) :
    uniqueAddresses (verifierRows (pendingOf height entry)) =
    uniqueAddresses entry.verifierResults := by
  have hfrom : ∀ (seen : List String) (vs : List VerifierResult),
      (dedupFrom seen ((vs.map (·.address)).map fun a => ⟨a, false, [], [], 0, 0⟩)).map
          (·.address) = (dedupFrom seen vs).map (·.address) := by
    intro seen vs
    induction vs generalizing seen with
    | nil => rfl
    | cons _ _ ih =>
      simp only [List.map_cons, dedupFrom]
      split
      · exact ih seen
      · grind
  exact hfrom [] entry.verifierResults

/-- Settling a task takes the payment from the balance. -/
theorem Ledger.balanceOf_settle {l : Ledger} (h : l.getInferenceAccount a = some ia) (height : Int)
    (p : Payment) (st : SettledTaskID) (b : Addr) : (l.settle height ia p st).balanceOf b =
      if a = b then l.balanceOf b - p.paid else l.balanceOf b := by
  rw [← balanceOf_debit h]
  exact balanceOf_congr rfl b

/-- A success was settled for a fee: the user is charged, and the payouts of the
split are made.  The coins of the worker account change with the stakes that
are slashed as well. -/
structure Settles (env : Env) (s s' : State) (u w : Addr) (fee : Int) (addresses : List String) :
    Prop where
  charge : s'.ledger.balanceOf u = s.ledger.balanceOf u - fee
  payouts : ∀ a, a ≠ env.settlementAccount → a ≠ env.workerAccount → s'.coinsOf a = s.coinsOf a +
      received a (if 0 < fee then successPayments env s.params fee w addresses else [])

/-- What comes before may not touch the balance or the coins. -/
theorem Settles.of_same {fee : Int} {addresses : List String}
    (h : Settles env s s' u w fee addresses) (hparams : s.params = t.params)
    (hbalance : s.ledger.balanceOf u = t.ledger.balanceOf u)
    (hcoins : ∀ a, a ≠ env.workerAccount → s.coinsOf a = t.coinsOf a) :
    Settles env t s' u w fee addresses where
  charge := by rw [h.charge, hbalance]
  payouts := fun a ha ha' => by rw [h.payouts a ha ha', hcoins a ha', hparams]

/-- **A direct success** of a user who can pay settles for the fee. -/
theorem settleSuccess_settles {paid : Int} (hdenom : fee.denom = defaultDenom)
    (hia : s.getInferenceAccount u = some ia) (hsolvent : fee.amount ≤ ia.balance.amount)
    (h : settleSuccess env ctx s entry u w ia fee = .ok (some (s', paid))) :
    Settles env s s' u w fee.amount (uniqueAddresses entry.verifierResults) := by
  obtain ⟨p, -, -, hdue, -, hp, hmove, hreceives⟩ := (settleSuccess_moves hdenom).get h _ rfl
  have hpaid : p.paid = fee.amount := by rw [hp.paid, hdue, min_eq_left hsolvent]
  constructor
  · rw [hmove.ledger, balanceOf_settle hia, if_pos rfl, hpaid]
  · rw [hpaid] at hreceives
    exact fun a ha _ => hreceives a ha

/-- **A success after an audit** of a user who can pay settles for the fee. -/
theorem settleAuditedSuccess_settles (hdenom : fee.denom = defaultDenom)
    (hia : s.getInferenceAccount u = some ia) (hsolvent : fee.amount ≤ ia.balance.amount)
    (h : settleAuditedSuccess env ctx s apt u w ia fee false = .ok (some s')) :
    Settles env s s' u w fee.amount (uniqueAddresses (verifierRows apt)) := by
  obtain ⟨p, -, -, hdue, hp, hmove, hreceives⟩ :=
    (settleAuditedSuccess_moves fun _ => hdenom).get h _ rfl
  have hpaid : p.paid = fee.amount := by rw [hp.paid, hdue, min_eq_left hsolvent]
  constructor
  · rw [hmove.ledger, balanceOf_settle hia, if_pos rfl, hpaid]
  · rw [hpaid] at hreceives
    exact fun a ha _ => hreceives a ha

/-- **What a per-token success costs** when it is settled at once: the cost of the resolved
counts in unbounded integers, up to `MaxFee` and up to the balance. -/
theorem per_token_charge_exact {acc acc' : BatchAcc}
    (hbilling : acc.state.params.perTokenBillingEnabled = true) (hper : entry.isPerToken = true)
    (hstatus : entry.status = .success) (h : settleEntry env ctx acc entry = .ok acc')
    (hsettled : SettledBetween entry.taskId acc.state acc'.state) :
    ∃ u w, admitEntry env ctx.height acc.state.ledger entry = some (u, w) ∧
      acc.state.ledger.balanceOf u - acc'.state.ledger.balanceOf u =
        min (acc.state.ledger.balanceOf u)
          (min entry.maxFee.amount (resolvedCost acc.state.params entry)) := by
  obtain ⟨u, w, s, ia, fee, paid, billed, settled⟩ := success_of_settled hstatus h hsettled
  obtain ⟨p, -, -, hdue, -, hp, hmove, -⟩ := (settleSuccess_moves billed.denom).get settled _ rfl
  have hfee := actualFee_eq billed.hfee
  rw [if_pos hper, if_pos hbilling] at hfee
  refine ⟨u, w, billed.admitted, ?_⟩
  rw [hmove.ledger, balanceOf_settle billed.account, if_pos rfl, hp.paid, hdue, hfee,
    balanceOf_of_get billed.account, billed.balanceOf]
  dsimp only
  omega

/-- The charge of one entry that is billed by token. -/
theorem per_token_charge_devnet :
    ∃ acc', settleEntry devEnv ⟨1, [], []⟩ devBillingAcc devChecked = .ok acc' ∧
      ∃ u w, admitEntry devEnv 1 devBillingAcc.state.ledger devChecked = some (u, w) ∧
        devBillingAcc.state.ledger.balanceOf u - acc'.state.ledger.balanceOf u =
          min (devBillingAcc.state.ledger.balanceOf u) (min 100
            (resolvedCost devBillingAcc.state.params devChecked)) := by
  obtain ⟨acc', hacc', hsettled⟩ := devChecked_settles
  exact ⟨acc', hacc', per_token_charge_exact rfl rfl rfl hacc' hsettled⟩

/-! ## from the batch to the settlement -/

/-- A slashed stake is burned from the worker account. -/
theorem World.balance_slashWorker {w : World} {percent : UInt32} (ha : a ≠ host.workerAccount)
    (d : String) : OnValue (fun w' => w'.bank.balance a d = w.bank.balance a d)
    (w.slashWorker host addr percent) := by
  unfold World.slashWorker World.slashWorkerInternal
  split
  · exact .ok rfl
  refine .either (.ok rfl) <| .after fun _ _ => .either (.ok rfl) <| .after fun _ _ => ?_
  split
  · exact .ok rfl
  next bank hburned =>
  refine .after fun _ _ => .ok ?_
  simp only [World.moveSlashed, Bank.debit] at hburned
  split at hburned
  · rw [← Option.some.inj hburned]
    exact if_neg fun e => ha e.1
  · contradiction

theorem World.balance_jailWorker {w : World} (ha : a ≠ host.workerAccount) (d : String) :
    OnValue (fun w' => w'.bank.balance a d = w.bank.balance a d)
    (w.jailWorker host height addr) := by
  unfold World.jailWorker
  split
  · exact .ok rfl
  refine .either (.ok rfl) <| .either ?_ <| .ok rfl
  refine (World.balance_slashWorker ha d).bind fun w₁ hslash => .ok ?_
  rw [bank_updateWorker]
  exact hslash

/-- Tracking the token counts moves no coins but those of the worker account. -/
theorem coinsOf_trackTokens (ha : a ≠ env.workerAccount) :
    OnValue (fun s' => s'.coinsOf a = s.coinsOf a) (trackTokens env ctx s entry w) := by
  refine .either (OnValue.bind (Q := fun s' => s'.coinsOf a = s.coinsOf a) ?_
    fun s₁ hcoins => .ok hcoins) <| .ok rfl
  refine .either (.either ?_ <| .ok rfl) <| .ok rfl
  exact OnValue.bind ((World.balance_jailWorker ha defaultDenom).bind fun w₁ hw₁ =>
    .ok (congrArg Nat.cast hw₁)) fun s₁ hs₁ => .ok hs₁

theorem coinsOf_countVerifiers (s : State) (entry : SettlementEntry) (a : Addr) :
    (countVerifiers env s entry).coinsOf a = s.coinsOf a := by
  obtain ⟨_, h⟩ := @countVerifiers_frame env s entry
  rw [h]
  rfl

/-- The task is settled as a success between two states, and was not before. -/
def BecomesSettled (t : TaskId) (s s' : State) : Prop :=
  (∀ st ∈ s.getSettledTask t, st.status ≠ .settled) ∧
    ∃ st ∈ s'.getSettledTask t, st.status = .settled

instance (t : TaskId) (s s' : State) : Decidable (BecomesSettled t s s') :=
  inferInstanceAs (Decidable (_ ∧ _))

/-- A passing audit of an entry comes to its judgment. -/
structure PassingAudit (env : Env) (ctx : Ctx) (s : State) (ar : SecondVerificationRecord)
    (height : Int) (entry : SettlementEntry) : Prop where
  pending : s.ledger.getSecondVerificationPending ar.taskId = some (pendingOf height entry)
  passes : auditPasses s.params ar.results = true
  unescalated : shouldTriggerThirdVerification env ctx ar.taskId
    s.book.getCurrentThirdVerificationRate = false
  honest : tokenFraud s.params ar (pendingOf height entry) = none

/-- The direct way: an entry that becomes settled settles for its fee. -/
theorem settleEntry_settles {acc acc' : BatchAcc} (hstatus : entry.status = .success)
    (huser : env.accAddressFromBech32 entry.userAddress = some u)
    (hsolvent : ∀ fee, actualFee acc.state.params entry = .ok fee →
    fee.amount ≤ acc.state.ledger.balanceOf u) (h : settleEntry env ctx acc entry = .ok acc')
    (hsettled : BecomesSettled entry.taskId acc.state acc'.state) :
    ∃ w fee, env.accAddressFromBech32 entry.workerAddress = some w ∧
    entry.nominal.denom = defaultDenom ∧ actualFee acc.state.params entry = .ok fee ∧
    Settles env acc.state acc'.state u w fee.amount (uniqueAddresses entry.verifierResults) := by
  obtain ⟨hbefore, st, hst, hstatus'⟩ := hsettled
  cases settleEntry_path h with
  | rejected => exact absurd hstatus' (hbefore st hst)
  | audited =>
    rw [← Option.some.inj (getSettledTask_park.symm.trans hst)] at hstatus'
    contradiction
  | refused _ _ _ _ _ billed =>
    exact absurd hstatus' (hbefore st (billed.getSettledTask _ ▸ hst))
  | success _ w s ia fee billed _ _ settled =>
    have hadmissible := billed.admissible
    cases huser.symm.trans hadmissible.user
    have hbalance : s.ledger.balanceOf u = acc.state.ledger.balanceOf u := by
      rw [billed.ledger, balanceOf_release]
    have hcovered : fee.amount ≤ ia.balance.amount := by
      rw [← balanceOf_of_get billed.account, hbalance]
      exact hsolvent fee billed.hfee
    have hsettles := settleSuccess_settles billed.denom billed.account hcovered settled
    refine ⟨w, fee, hadmissible.worker, hadmissible.denom, billed.hfee,
      hsettles.of_same billed.params hbalance fun a ha => ?_⟩
    obtain ⟨s₁, htrack, rfl⟩ := billed.tracked
    exact ((coinsOf_trackTokens ha).get htrack).trans (coinsOf_countVerifiers ..)
  | fail _ _ _ _ _ _ status => exact absurd hstatus status

/-- A settlement as a success leaves the record, or is the success branch. -/
theorem settleAuditedTask_success :
    OnValue (fun r => r.1.getSettledTask apt.taskId = s.getSettledTask apt.taskId ∨
    ∃ u w ia fee, env.accAddressFromBech32 apt.userAddress = some u ∧
    env.accAddressFromBech32 apt.workerAddress = some w ∧
    (s.mapLedger (·.release u apt.taskId)).getInferenceAccount u = some ia ∧
    auditedFee apt 0 = .ok fee ∧
    settleAuditedSuccess env ctx (s.mapLedger (·.release u apt.taskId)) apt u w ia fee false =
    .ok (some r.1)) (settleAuditedTask env ctx s apt true false 0) := by
  refine settleAuditedTask_rule (fun _ => .inl rfl) (fun _ _ => .inl rfl)
    (fun _ _ _ _ => .inl (getSettledTask_release ..)) fun _ u w ia fee hu hw hia hfee =>
    .of_forall fun o ho s' hs' => .inr ⟨u, w, ia, fee, hu, hw, hia, hfee, ?_⟩
  obtain rfl := hs'
  exact ho

/-- A passing audit of a success comes down to the settlement. -/
theorem processAuditJudgment_passing (hstatus : entry.status = .success)
    (haudit : PassingAudit env ctx s ar height entry)
    (h : processAuditJudgment env ctx s ar = .ok s') : ∃ s₁ settled stats,
    settleAuditedTask env ctx s (pendingOf height entry) true false 0 = .ok (s₁, settled) ∧
    s' = closeJudgment false ar.taskId (s₁, stats, settled) := by
  unfold processAuditJudgment at h
  rw [haudit.pending] at h
  have hsecond : (pendingOf height entry).isThirdVerification = false := rfl
  have hsuccess : (pendingOf height entry).originalStatus = .success := hstatus
  simp only [hsecond, Bool.not_false, if_true, haudit.unescalated, Bool.false_eq_true, if_false,
    haudit.honest, haudit.passes] at h
  obtain ⟨r, hjudge, h⟩ := bind_eq_ok.mp h
  simp only [judgeSecond, hsuccess, decide_true, Bool.and_self, if_true] at hjudge
  obtain ⟨⟨s₁, settled⟩, hsettle, hjudge⟩ := bind_eq_ok.mp hjudge
  cases hjudge
  exact ⟨s₁, settled, _, hsettle, (Except.ok.inj h).symm⟩

/-- Closing the judgment touches neither records nor balances nor coins. -/
theorem closeJudgment_frame (t : TaskId) (r : State × EpochStats × Bool) :
    (closeJudgment false t r).ledger.settledTasks = r.1.ledger.settledTasks ∧
    (closeJudgment false t r).ledger.inferenceAccounts = r.1.ledger.inferenceAccounts ∧
    (closeJudgment false t r).world = r.1.world := by
  unfold closeJudgment
  split <;> exact ⟨rfl, rfl, rfl⟩

/-- The audited way: a passing audit that settles the task settles it for the
reported counts. -/
theorem processAuditJudgment_settles (hstatus : entry.status = .success)
    (huser : env.accAddressFromBech32 entry.userAddress = some u)
    (hdenom : entry.nominal.denom = defaultDenom)
    (hsolvent : ∀ fee, auditedFee (pendingOf height entry) 0 = .ok fee →
    fee.amount ≤ s.ledger.balanceOf u) (haudit : PassingAudit env ctx s ar height entry)
    (h : processAuditJudgment env ctx s ar = .ok s') (hsettled : BecomesSettled entry.taskId s s') :
    ∃ w fee, env.accAddressFromBech32 entry.workerAddress = some w ∧
    auditedFee (pendingOf height entry) 0 = .ok fee ∧
    Settles env s s' u w fee.amount (uniqueAddresses entry.verifierResults) := by
  obtain ⟨hbefore, st, hst, hstatus'⟩ := hsettled
  obtain ⟨s₁, settled, stats, hsettle, rfl⟩ := processAuditJudgment_passing hstatus haudit h
  obtain ⟨hrecords, haccounts, hworld⟩ := closeJudgment_frame ar.taskId (s₁, stats, settled)
  have hst₁ : s₁.getSettledTask entry.taskId = some st := by
    rw [← hst, State.getSettledTask, State.getSettledTask, getSettledTask, getSettledTask, hrecords]
  obtain hsame | ⟨u', w, ia, fee, hu, hw, hia, hfee, hpaid⟩ := settleAuditedTask_success.get hsettle
  · exact absurd hstatus' (hbefore st (hsame.symm.trans hst₁))
  · cases huser.symm.trans hu
    have hbalance : (s.ledger.release u entry.taskId).balanceOf u = s.ledger.balanceOf u :=
      balanceOf_release ..
    have hcovered : fee.amount ≤ ia.balance.amount := by
      rw [← balanceOf_of_get hia]
      exact (hsolvent fee hfee).trans_eq hbalance.symm
    have hsettles := (settleAuditedSuccess_settles (auditedFee_denom hdenom hfee) hia hcovered
      hpaid).of_same (t := s) rfl hbalance fun _ _ => rfl
    rw [uniqueAddresses_verifierRows] at hsettles
    refine ⟨w, fee, hw, hfee, ?_, fun a ha ha' => ?_⟩
    · rw [balanceOf_congr haccounts]
      exact hsettles.charge
    · rw [State.coinsOf, hworld]
      exact hsettles.payouts a ha ha'

/-- Two settlements of an entry have the same price: the user is charged the
same, and every account but the module accounts receives the same. -/
structure SameOutcome (env : Env) (u : Addr) (s s' t t' : State) : Prop where
  charge : s.ledger.balanceOf u - s'.ledger.balanceOf u =
    t.ledger.balanceOf u - t'.ledger.balanceOf u
  payouts : ∀ a, a ≠ env.settlementAccount → a ≠ env.workerAccount →
    s'.coinsOf a - s.coinsOf a = t'.coinsOf a - t.coinsOf a

/-- **The price of an audit.**  A success that is settled in its batch, and one
that is settled by a passing audit, for a user who can pay either: the charge
and the payouts are the same exactly when the entry is per request, or the
reported counts reach its cap, or per-token billing is on and the resolved and
the reported counts cost the same, or both reach the cap. -/
theorem audit_price_iff {acc acc' : BatchAcc} {ctx' : Ctx} {s s' : State}
    {ar : SecondVerificationRecord} {height : Int} {entry : SettlementEntry} {u : Addr}
    (hstatus : entry.status = .success) (hparams : s.params = acc.state.params)
    (huser : env.accAddressFromBech32 entry.userAddress = some u)
    (hsolvent : ∀ fee, actualFee acc.state.params entry = .ok fee →
      fee.amount ≤ acc.state.ledger.balanceOf u)
    (hsolvent' : ∀ fee, auditedFee (pendingOf height entry) 0 = .ok fee →
      fee.amount ≤ s.ledger.balanceOf u) (h : settleEntry env ctx acc entry = .ok acc')
    (hsettled : BecomesSettled entry.taskId acc.state acc'.state)
    (haudit : PassingAudit env ctx' s ar height entry)
    (h' : processAuditJudgment env ctx' s ar = .ok s')
    (hsettled' : BecomesSettled entry.taskId s s') :
    SameOutcome env u acc.state acc'.state s s' ↔ SamePrice acc.state.params entry := by
  obtain ⟨w, fee, hworker, hdenom, hfee, hdirect⟩ :=
    settleEntry_settles hstatus huser hsolvent h hsettled
  obtain ⟨w', fee', hworker', hfee', haudited⟩ :=
    processAuditJudgment_settles hstatus huser hdenom hsolvent' haudit h' hsettled'
  cases hworker.symm.trans hworker'
  rw [← samePrice_iff hfee hfee']
  have hcharge := hdirect.charge
  have hcharge' := haudited.charge
  constructor
  · intro hsame
    have := hsame.charge
    omega
  · intro hprice
    refine ⟨by omega, fun a ha ha' => ?_⟩
    rw [hdirect.payouts a ha ha', haudited.payouts a ha ha', hparams, hprice]
    omega

/-! ## on the devnet

Task 25 lies on the border of the audit draw: the block hash decides.
-/

/-- A per-token entry of task 25 on whose counts three verifiers report. -/
def devPriced (outputTokens : UInt32) : SettlementEntry :=
  devTokens [25] [("x", 10, outputTokens), ("y", 10, outputTokens), ("z", 10, outputTokens)]

/-- Three passing votes on task 25. -/
def devPassing : SecondVerificationRecord :=
  ⟨[25], 0, ["a", "b", "c"], [true, true, true], 1, [0, 0, 0], [0, 0, 0]⟩

/-- The devnet with the entry in the audit queue. -/
def devAudited : State := devBillingAcc.state.mapLedger (park 1 · (devPriced 20))

/-- Verifiers and worker report the same counts: the price is the same. -/
theorem audit_price_devnet :
    ∃ acc' s', settleEntry devEnv ⟨1, [255], []⟩ devBillingAcc (devPriced 20) = .ok acc' ∧
      processAuditJudgment devEnv ⟨1, [], []⟩ devAudited devPassing = .ok s' ∧
      SameOutcome devEnv (devAddr "user") devBillingAcc.state acc'.state devAudited s' := by
  have hdirect : ∃ acc', settleEntry devEnv ⟨1, [255], []⟩ devBillingAcc (devPriced 20) = .ok acc' ∧
      BecomesSettled [25] devBillingAcc.state acc'.state := by decide +kernel
  have haudited : ∃ s', processAuditJudgment devEnv ⟨1, [], []⟩ devAudited devPassing = .ok s' ∧
      BecomesSettled [25] devAudited s' := by decide +kernel
  obtain ⟨acc', hacc', hsettled⟩ := hdirect
  obtain ⟨s', hs', hsettled'⟩ := haudited
  have hfee : actualFee devBillingAcc.state.params (devPriced 20) = .ok ⟨defaultDenom, 30⟩ := by
    decide +kernel
  have hfee' : auditedFee (pendingOf 1 (devPriced 20)) 0 = .ok ⟨defaultDenom, 30⟩ := by
    decide +kernel
  have hpassing : PassingAudit devEnv ⟨1, [], []⟩ devAudited devPassing 1 (devPriced 20) :=
    ⟨by decide +kernel, by decide +kernel, by decide +kernel, by decide +kernel⟩
  refine ⟨acc', s', hacc', hs', ?_⟩
  refine (audit_price_iff (s := devAudited) rfl rfl rfl (fun fee h => ?_) (fun fee h => ?_) hacc'
    hsettled hpassing hs' hsettled').mpr (by decide +kernel)
  · cases hfee.symm.trans h
    decide +kernel
  · cases hfee'.symm.trans h
    decide +kernel

/-- The worker reports twenty output tokens and the verifiers ten: the same
entry costs twenty without audit and thirty after a passing one. -/
theorem audit_changes_price : AtGenesis devEnv (devnet devBilling [("user", 1000)]) ∧
      (∃ c, Run devEnv (fun _ _ => True) (devnet devBilling [("user", 1000)]) c ∧
        (c.state.getSettledTask [25]).map (·.status) = some .settled ∧
        c.state.ledger.balanceOf (devAddr "user") = 980) ∧
      ∃ c, Run devEnv (fun _ _ => True) (devnet devBilling [("user", 1000)]) c ∧
        (c.state.getSettledTask [25]).map (·.status) = some .settled ∧
        c.state.ledger.balanceOf (devAddr "user") = 970 := by
  refine ⟨atGenesis_devnet (by decide) (by decide), ?_, ?_⟩
  · exact Run.exists_of_exec [.endBlock ⟨2, [255], []⟩, devBatch [devPriced 10]] (by decide +kernel)
  · exact Run.exists_of_exec [.endBlock ⟨2, [], []⟩, devBatch [devPriced 10],
      devVote "a" [25] true, devVote "b" [25] true, devVote "c" [25] true] (by decide +kernel)

end

variable {vs : List VerifierResult} {workerAddr : Addr}

/-- **A fee is split exactly.**  The ratios of a valid parameter set sum to 1000. -/
theorem fee_split_exact (hfee : 0 ≤ fee.amount)
    (hratios : s.params.executorFeeRatio.toNat + s.params.verifierFeeRatio.toNat +
      s.params.multiVerificationFundRatio.toNat = 1000) :
    OnValue (OnValue fun r =>
      let payments := successPayments env s.params fee.amount workerAddr (uniqueAddresses vs)
      State.PaysOut env fee.denom s r.1 payments ∧ (payments.map Prod.snd).sum +
        fee.amount * s.params.multiVerificationFundRatio.toNat / 1000 = fee.amount)
      (distributeSuccessFee env s fee workerAddr vs) ∧
    OnValue (OnValue fun r =>
      let payments := sharePayments env (failVerifierPart s.params fee.amount) (uniqueAddresses vs)
      State.PaysOut env fee.denom s r.1 payments ∧ (payments.map Prod.snd).sum ≤
        fee.amount * s.params.verifierFeeRatio.toNat /
          (s.params.verifierFeeRatio.toNat + s.params.multiVerificationFundRatio.toNat))
      (distributeFailFee env s fee vs) := by
  have hnn : ∀ n : Nat, 0 ≤ fee.amount * n := fun n => mul_nonneg hfee (Int.natCast_nonneg n)
  refine ⟨distributeSuccessFee_paysOut.mono fun r hr => hr.mono fun r hr => ⟨hr.1, ?_⟩,
    distributeFailFee_paysOut.mono fun r hr => hr.mono fun r hr => ⟨hr.1, ?_⟩⟩
  · rw [sum_successPayments, fundPart, Int.tdiv_eq_ediv_of_nonneg (hnn _)]
    omega
  · have hwidth : (s.params.verifierFeeRatio + s.params.multiVerificationFundRatio).toNat =
        s.params.verifierFeeRatio.toNat + s.params.multiVerificationFundRatio.toNat := by
      rw [UInt32.toNat_add, Nat.mod_eq_of_lt (by omega)]
    refine (sum_sharePayments_le _ (failVerifierPart_nonneg hfee)).trans_eq ?_
    rw [failVerifierPart, hwidth, Int.tdiv_eq_ediv_of_nonneg (hnn _), Nat.cast_add]

/-- Of a fee of 1000 the verifiers share 120, the executor gets 850. -/
theorem fee_split_exact_devnet : ∃ r, distributeSuccessFee devEnv
      (devnet .default [("user", 1000)]).state ⟨defaultDenom, 1000⟩ (devAddr "worker")
      [⟨"v", true, [], [], 0, 0⟩, ⟨"", true, [], [], 0, 0⟩] = .ok (.ok r) ∧
    State.PaysOut devEnv defaultDenom (devnet .default [("user", 1000)]).state r.1
      [(devAddr "v", 120), (devAddr "worker", 850)] := by
  obtain ⟨_, hx, r, rfl, -⟩ : ∃ x, distributeSuccessFee devEnv
      (devnet .default [("user", 1000)]).state ⟨defaultDenom, 1000⟩ (devAddr "worker")
      [⟨"v", true, [], [], 0, 0⟩, ⟨"", true, [], [], 0, 0⟩] = .ok x ∧ ∃ r, x = .ok r ∧ True := by
    decide +kernel
  exact ⟨r, hx, (((fee_split_exact (by decide) (by decide)).1.get hx).get rfl).1⟩

end FunaiChain.Settlement
