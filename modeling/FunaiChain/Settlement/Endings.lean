import FunaiChain.Settlement.Price
import FunaiChain.Settlement.Votes

/-!
# FunaiChain.Settlement.Endings

How an audited task ends.  The source writes the decision over the original
outcome and the result of the audit three times: in the judgment of a second
verification, in the judgment of a third one, and in the sweep over the
timeouts.  An `Ending` is what such a decision asks for; for a task that can be
settled it fixes the status of its record and the charge of its user
(`EndsAs`).

The three tables differ.  A timeout of the third verification settles a
success that the audit overturned as a fail, with a fail fee, where the audit
fails it without a charge.  A confirmed overturn of a fail is settled as a
fail (`confirmation_iff`).
-/

namespace FunaiChain.Settlement

open Ledger

variable {env : Env} {ctx : Ctx} {apt : SecondVerificationPendingTask} {u : Addr} {fee : Coin}
  {s s' : State}
variable {ia : InferenceAccount} {w : Addr} {asSuccess auditPass settled : Bool} {s'' : State}
  {height : Int} {e : Ending} {stats stats' : EpochStats} {ar : SecondVerificationRecord}

/-! ## endings -/

inductive Ending
  /-- `settleAuditedTask`, as a success or as a fail. -/
  | settle (asSuccess : Bool)
  /-- A failed record, without a settlement. -/
  | failed
  deriving DecidableEq, Repr

namespace Ending

def status : Ending → TaskStatus
  | settle asSuccess => chargedStatus asSuccess
  | failed => .failed

/-- What the user is charged, for the fee of the task. -/
def charge (params : Params) (fee : Int) : Ending → Int
  | settle true => fee
  | settle false => failFee params fee
  | failed => 0

theorem status_injective : Function.Injective status := by
  intro e e' h
  cases e with
  | settle b =>
    cases e' with
    | settle b' => revert h; cases b <;> cases b' <;> decide
    | failed => revert h; cases b <;> decide
  | failed =>
    cases e' with
    | settle b' => revert h; cases b' <;> decide
    | failed => rfl

end Ending

/-- The table of the second verification. -/
def secondEnding (original : SettlementStatus) (auditPass : Bool) : Ending :=
  match original, auditPass with
  | .success, true => .settle true
  | .success, false => .failed
  | .fail, true => .settle true
  | _, _ => .settle false

/-- The table of a third verification that confirms the audit. -/
def confirmedEnding (original : SettlementStatus) (auditPass : Bool) : Ending :=
  match original, auditPass with
  | .success, true => .settle true
  | .success, false => .failed
  | _, _ => .settle false

/-- The task ended between two states. -/
structure EndsAs (t : TaskId) (u : Addr) (fee : Int) (s s' : State) (e : Ending) : Prop where
  record : ∃ st, s'.getSettledTask t = some st ∧ st.status = e.status
  charge : s'.ledger.balanceOf u = s.ledger.balanceOf u - e.charge s.params fee

/-- The task can be settled: its addresses decode, its user has an account that
covers the fee and the fail fee, there is no fraud mark, and the bank accepts
the payouts. -/
structure Chargeable (env : Env) (s : State) (apt : SecondVerificationPendingTask) (u : Addr)
    (fee : Coin) : Prop where
  denominated : s.ledger.Denominated
  unmarked : s.hasFraudMark apt.taskId = false
  user : env.accAddressFromBech32 apt.userAddress = some u
  account : (s.getInferenceAccount u).isSome
  price : auditedFee apt 0 = .ok fee
  denom : fee.denom = defaultDenom
  solvent : fee.amount ≤ s.ledger.balanceOf u
  solventFail : failFee s.params fee.amount ≤ s.ledger.balanceOf u
  payable : ∃ w, env.accAddressFromBech32 apt.workerAddress = some w ∧
    Payable env s fee.amount w apt.verifierAddresses ∧
    Payable env s (failFee s.params fee.amount) w apt.verifierAddresses

/-! ## settling -/

theorem verifierRows_addresses (apt : SecondVerificationPendingTask) :
    (verifierRows apt).map (·.address) = apt.verifierAddresses := by
  simp [verifierRows, Function.comp_def]

theorem settleAuditedSuccess_accepted (hdenom : fee.denom = defaultDenom)
    (hsolvent : fee.amount ≤ ia.balance.amount)
    (hpay : Payable env s fee.amount w apt.verifierAddresses) :
    OnValue (· ≠ none) (settleAuditedSuccess env ctx s apt u w ia fee false) := by
  refine .after fun charge hcharge => .after fun ⟨payable, shortfall⟩ hsplit => ?_
  obtain rfl : fee = charge := Except.ok.inj hcharge
  simp only [not_lt.mpr hsolvent, decide_false, Bool.and_false] at hsplit
  obtain ⟨rfl, rfl, -⟩ := splitShortfall_eq hsplit
  refine .after fun distributable hdist => .after fun balance _ => .after fun r hr => ?_
  obtain rfl : fee = distributable := Except.ok.inj hdist
  rw [← verifierRows_addresses] at hpay
  obtain ⟨⟨s₁, split⟩, rfl⟩ := (payOutSuccess_accepted hdenom (by exact hpay.mapLedger)).get hr
  exact .after fun _ _ => Option.some_ne_none _

namespace EndsAs

variable {t : TaskId} {fee : Int}

/-- A start with the same balance and parameters. -/
theorem of_same {s₀ : State} (h : EndsAs t u fee s₀ s' e)
    (hbalance : s₀.ledger.balanceOf u = s.ledger.balanceOf u) (hparams : s₀.params = s.params) :
    EndsAs t u fee s s' e where
  record := h.record
  charge := by rw [h.charge, hbalance, hparams]

/-- An end with the same records and accounts. -/
theorem congr (h : EndsAs t u fee s s' e)
    (hrecords : s''.ledger.settledTasks = s'.ledger.settledTasks)
    (haccounts : s''.ledger.inferenceAccounts = s'.ledger.inferenceAccounts) :
    EndsAs t u fee s s'' e where
  record := by
    obtain ⟨st, hst, hstatus⟩ := h.record
    refine ⟨st, ?_, hstatus⟩
    rw [← hst, State.getSettledTask, State.getSettledTask, getSettledTask, getSettledTask, hrecords]
  charge := by rw [balanceOf_congr haccounts, h.charge]

/-- Bookkeeping after the end. -/
theorem quiet (h : EndsAs t u fee s s' e) (hquiet : State.Quiet env s' s'') :
    EndsAs t u fee s s'' e :=
  h.congr (by rw [hquiet.ledger]) (by rw [hquiet.ledger])

end EndsAs

/-- Settling an account takes the payment and writes the record. -/
theorem endsAs_settle {p : Payment} {st : SettledTaskID}
    (hia : s.getInferenceAccount u = some ia) (hledger : s'.ledger = s.ledger.settle height ia p st)
    (htask : st.taskId = apt.taskId) (hstatus : st.status = e.status)
    (hpaid : p.paid = e.charge s.params fee.amount) : EndsAs apt.taskId u fee.amount s s' e := by
  constructor
  · refine ⟨st, ?_, hstatus⟩
    rw [State.getSettledTask, hledger, ← htask]
    exact (getSettledTask_set ..).trans (if_pos rfl)
  · rw [hledger, balanceOf_settle hia, if_pos rfl, hpaid]

section
variable (hs : Chargeable env s apt u fee)
include hs

/-- The branches of the settlement, for an account that was read. -/
theorem settleAudited_ends (hworker : env.accAddressFromBech32 apt.workerAddress = some w)
    (hia : s.getInferenceAccount u = some ia) :
    OnValue (fun r => ∃ s', r = some s' ∧ EndsAs apt.taskId u fee.amount s s' (.settle asSuccess))
      (if asSuccess then settleAuditedSuccess env ctx s apt u w ia fee false
      else settleAuditedFail env ctx s apt u w ia fee) := by
  obtain ⟨w', hworker', hpay, hpayFail⟩ := hs.payable
  cases hworker.symm.trans hworker'
  have hdenom : ia.balance.denom = defaultDenom := hs.denominated u ia hia
  have hbalance := balanceOf_of_get hia
  have hsolvent : fee.amount ≤ ia.balance.amount := hbalance ▸ hs.solvent
  have hsolventFail : failFee s.params fee.amount ≤ ia.balance.amount := hbalance ▸ hs.solventFail
  refine .of_forall fun r h => ?_
  cases asSuccess with
  | true =>
    obtain ⟨s', rfl⟩ := Option.ne_none_iff_exists'.mp
      ((settleAuditedSuccess_accepted hs.denom hsolvent hpay).get h)
    obtain ⟨p, -, -, hdue, hp, hmove, -⟩ :=
      (settleAuditedSuccess_moves fun _ => hs.denom).get h s' rfl
    refine ⟨s', rfl, endsAs_settle hia hmove.ledger rfl rfl ?_⟩
    rw [hp.paid, hdue, min_eq_left hsolvent]
    rfl
  | false =>
    obtain ⟨s', rfl⟩ := Option.ne_none_iff_exists'.mp
      ((settleFail_accepted shortfall_tested (fun _ => hs.denom)
        (by rwa [min_eq_left hsolventFail, verifierRows_addresses])).get h)
    obtain ⟨p, c, -, -, hdue, hp, hmove⟩ :=
      (settleFail_moves shortfall_tested fun _ => hs.denom).get h s' rfl
    refine ⟨s', rfl, endsAs_settle hia hmove.ledger rfl rfl ?_⟩
    rw [hp.paid, hdue, min_eq_left hsolventFail]
    rfl

/-- A release changes nothing of what the settlement needs. -/
theorem Chargeable.release : Chargeable env (s.mapLedger (·.release u apt.taskId)) apt u fee where
  denominated := hs.denominated.release u apt.taskId
  unmarked := by
    have hmark := hs.unmarked
    simp only [State.hasFraudMark, hasFraudMark] at hmark ⊢
    simpa [State.mapLedger] using hmark
  user := hs.user
  account := by
    have haccount : s.ledger.hasAccount u = true := hs.account
    rwa [← hasAccount_release s.ledger u apt.taskId] at haccount
  price := hs.price
  denom := hs.denom
  solvent := hs.solvent.trans_eq (balanceOf_release ..).symm
  solventFail := hs.solventFail.trans_eq (balanceOf_release ..).symm
  payable := by
    obtain ⟨w, hworker, hpay, hpayFail⟩ := hs.payable
    exact ⟨w, hworker, hpay.congr rfl rfl, hpayFail.congr rfl rfl⟩

/-- **A task that can be settled is settled**, as it was asked for. -/
theorem settleAuditedTask_ends :
    OnValue (fun r => r.2 = true ∧ EndsAs apt.taskId u fee.amount s r.1 (.settle asSuccess))
    (settleAuditedTask env ctx s apt asSuccess false 0) := by
  obtain ⟨w, hworker, -⟩ := hs.payable
  obtain ⟨ia₀, hia₀⟩ := Option.isSome_iff_exists.mp hs.account
  unfold settleAuditedTask
  simp only [hs.unmarked, Bool.false_eq_true, if_false, hs.user, hworker, hia₀, Option.isNone_some]
  refine .after fun ⟨l, r⟩ hunfreeze => ?_
  obtain rfl := unfreezeBalance_eq hunfreeze
  split
  · exact .error
  next ia hia =>
  refine .after fun fee' hfee' => ?_
  cases hs.price.symm.trans hfee'
  refine (settleAudited_ends hs.release hworker hia).bind ?_
  rintro r ⟨s₁, rfl, hends⟩
  exact .ok ⟨rfl, hends.of_same (balanceOf_release ..) rfl⟩

end

/-- A failed record without a settlement. -/
theorem endsAs_failed {s₁ : State} (hquiet : State.Quiet env s s₁) :
    EndsAs apt.taskId u fee.amount s
    (s₁.mapLedger (·.setSettledTask (auditRecordOf height apt .failed Coin.zero))) .failed := by
  constructor
  · exact ⟨_, (getSettledTask_set ..).trans (if_pos rfl), rfl⟩
  · change _ = s.ledger.balanceOf u - 0
    rw [Int.sub_zero, ← hquiet.ledger]
    exact balanceOf_congr rfl u

/-! ## the three decisions -/

/-- The judgment of a second verification ends the task by its table. -/
theorem judgeSecond_ends (hs : Chargeable env s apt u fee) :
    OnValue (fun r => EndsAs apt.taskId u fee.amount s r.1
    (secondEnding apt.originalStatus auditPass)) (judgeSecond env ctx s apt auditPass stats) := by
  refine .ite (fun hcase => ?_) fun hpassing => .ite (fun hcase => ?_) fun hfailing =>
    .ite (fun hcase => ?_) fun hother => ?_
  · simp only [Bool.and_eq_true, decide_eq_true_eq] at hcase
    rw [hcase.1, hcase.2]
    exact (settleAuditedTask_ends hs).bind fun r hr => .ok hr.2
  · simp only [Bool.and_eq_true, decide_eq_true_eq, Bool.not_eq_true'] at hcase
    rw [hcase.1, hcase.2]
    exact quiet_jailWorkerAndVerifiers.bind fun s₁ hjail => .ok (endsAs_failed hjail)
  · simp only [Bool.and_eq_true, decide_eq_true_eq] at hcase
    rw [hcase.1, hcase.2]
    exact (settleAuditedTask_ends hs).bind fun r hr =>
      quiet_jailVoters.bind fun s₂ hjail => .ok (hr.2.quiet hjail)
  · have hending : secondEnding apt.originalStatus auditPass = .settle false := by
      cases hstatus : apt.originalStatus <;> cases auditPass <;> simp_all [secondEnding]
    rw [hending]
    exact (settleAuditedTask_ends hs).bind fun r hr => .ok hr.2

/-- A third verification that confirms the audit ends the task by its table. -/
theorem judgeThird_ends {origAudit : SecondVerificationRecord} (hs : Chargeable env s apt u fee)
    (hconfirms : auditPasses s.params origAudit.results = auditPass) :
    OnValue (fun r => EndsAs apt.taskId u fee.amount s r.1
    (confirmedEnding apt.originalStatus auditPass))
    (judgeThird env ctx s apt auditPass origAudit stats) := by
  unfold judgeThird
  rw [hconfirms]
  cases auditPass with
  | true =>
    refine (settleAuditedTask_ends hs).bind fun r hr => .ok ?_
    have hends := hr.2
    cases hstatus : apt.originalStatus with
    | success | fail | other => rwa [hstatus] at hends
  | false =>
    simp only [Bool.false_and, Bool.and_false, Bool.false_eq_true, if_false]
    refine .ite (fun hstatus => ?_) fun hstatus => ?_
    · rw [hstatus]
      exact quiet_jailWorkerAndVerifiers.bind fun s₁ hjail => .ok (endsAs_failed hjail)
    · have hending : confirmedEnding apt.originalStatus false = .settle false := by
        cases hother : apt.originalStatus <;> simp_all [confirmedEnding]
      rw [hending]
      exact (settleAuditedTask_ends hs).bind fun r hr => .ok hr.2

/-- A timeout of the third verification settles by the votes of the audit. -/
theorem timeoutTurn_ends {key : HeightKey} (hs : Chargeable env s apt u fee)
    (hvotes : s.ledger.getSecondVerificationRecord apt.taskId = some ar) :
    OnValue (fun s' => EndsAs apt.taskId u fee.amount s s'
    (.settle (auditPasses s.params ar.results))) (timeoutTurn env ctx true s (apt, key)) := by
  have houtcome : timeoutOutcome s.params s.ledger true apt = auditPasses s.params ar.results := by
    simp [timeoutOutcome, hvotes]
  unfold timeoutTurn
  rw [houtcome]
  refine (settleAuditedTask_ends hs).bind ?_
  rintro ⟨s₁, settled⟩ ⟨rfl, hends⟩
  exact .ok (hends.congr rfl rfl)

/-! ## comparing the endings -/

/-- The final statuses of the task agree, and so do the charges of its user. -/
structure SameEnd (t : TaskId) (u : Addr) (s s' r r' : State) : Prop where
  status : (s'.getSettledTask t).map (·.status) = (r'.getSettledTask t).map (·.status)
  charge : s.ledger.balanceOf u - s'.ledger.balanceOf u =
    r.ledger.balanceOf u - r'.ledger.balanceOf u

/-- Two ends agree exactly when they are the same ending. -/
theorem sameEnd_iff {t : TaskId} {fee : Int} {r r' : State} {e' : Ending}
    (h : EndsAs t u fee s s' e) (h' : EndsAs t u fee r r' e') (hparams : r.params = s.params) :
    SameEnd t u s s' r r' ↔ e = e' := by
  obtain ⟨st, hst, hstatus⟩ := h.record
  obtain ⟨st', hst', hstatus'⟩ := h'.record
  have hcharge := h.charge
  have hcharge' := h'.charge
  constructor
  · intro hsame
    have hsame := hsame.status
    rw [hst, hst'] at hsame
    apply Ending.status_injective
    rw [← hstatus, ← hstatus']
    exact Option.some.inj hsame
  · rintro rfl
    constructor
    · rw [hst, hst', Option.map_some, Option.map_some, hstatus, hstatus']
    · grind

/-- An audit that is judged without third verification and finds no token-count
fraud. -/
structure PlainAudit (env : Env) (ctx : Ctx) (s : State) (ar : SecondVerificationRecord)
    (apt : SecondVerificationPendingTask) : Prop where
  pending : s.ledger.getSecondVerificationPending ar.taskId = some apt
  unescalated : shouldTriggerThirdVerification env ctx ar.taskId
    s.book.getCurrentThirdVerificationRate = false
  honest : tokenFraud s.params ar apt = none

theorem processAuditJudgment_ends (haudit : PlainAudit env ctx s ar apt)
    (hs : Chargeable env s apt u fee) : OnValue (fun s' => EndsAs apt.taskId u fee.amount s s'
    (secondEnding apt.originalStatus (auditPasses s.params ar.results)))
    (processAuditJudgment env ctx s ar) := by
  unfold processAuditJudgment
  have hsecond : apt.isThirdVerification = false := (Table.law_of_get haudit.pending).2
  simp only [haudit.pending, hsecond, Bool.not_false, if_true, haudit.unescalated,
    Bool.false_eq_true, if_false, haudit.honest]
  refine (judgeSecond_ends hs).bind fun r hr => .ok ?_
  obtain ⟨hrecords, haccounts, -⟩ := closeJudgment_frame ar.taskId r
  exact hr.congr hrecords haccounts

/-- The task as it waits for third verification can be settled as well. -/
theorem Chargeable.third (hs : Chargeable env s apt u fee) (height : Int) :
    Chargeable env s (thirdPendingOf height apt) u fee where
  denominated := hs.denominated
  unmarked := hs.unmarked
  user := hs.user
  account := hs.account
  price := hs.price
  denom := hs.denom
  solvent := hs.solvent
  solventFail := hs.solventFail
  payable := hs.payable

/-- **Third verification against the audit.**  A task whose audit is judged in
`s`, times out in third verification in `r`, or is confirmed in third
verification in `q`, by the same votes.  The timeout agrees with the audit
exactly when the audit passes and the original outcome is a success or a fail,
or it does not pass and the outcome is not a success.  The confirmation agrees
exactly when the audit does not pass or the original outcome is not a fail. -/
theorem confirmation_iff {ctxR ctxQ : Ctx} {r r' q q' : State} {ar : SecondVerificationRecord}
    {votes : SecondVerificationRecord} {key : HeightKey} {heightR heightQ : Int}
    {stats stats' : EpochStats} {settled : Bool}
    -- the audit
    (haudit : PlainAudit env ctx s ar apt) (hs : Chargeable env s apt u fee)
    (h : processAuditJudgment env ctx s ar = .ok s')
    -- the timeout
    (hr : Chargeable env r apt u fee) (hparamsR : r.params = s.params)
    (hvotes : r.ledger.getSecondVerificationRecord apt.taskId = some votes)
    (hsame : votes.results = ar.results)
    (hR : timeoutTurn env ctxR true r (thirdPendingOf heightR apt, key) = .ok r')
    -- the confirmation
    (hq : Chargeable env q apt u fee) (hparamsQ : q.params = s.params)
    (hQ : judgeThird env ctxQ q (thirdPendingOf heightQ apt) (auditPasses q.params ar.results) ar
      stats = .ok (q', stats', settled)) :
    (SameEnd apt.taskId u s s' r r' ↔
      if auditPasses s.params ar.results then
        apt.originalStatus = .success ∨ apt.originalStatus = .fail
      else apt.originalStatus ≠ .success) ∧
    (SameEnd apt.taskId u s s' q q' ↔
      (auditPasses s.params ar.results = true → apt.originalStatus ≠ .fail)) := by
  have hends := (processAuditJudgment_ends haudit hs).get h
  have hendsR := (timeoutTurn_ends (hr.third heightR) hvotes).get hR
  have hendsQ := (judgeThird_ends (hq.third heightQ) rfl).get hQ
  rw [hsame, hparamsR] at hendsR
  rw [hparamsQ] at hendsQ
  rw [sameEnd_iff hends hendsR hparamsR, sameEnd_iff hends hendsQ hparamsQ]
  generalize auditPasses s.params ar.results = pass
  change (secondEnding apt.originalStatus pass = .settle pass ↔ _) ∧
    (secondEnding apt.originalStatus pass = confirmedEnding apt.originalStatus pass ↔ _)
  cases apt.originalStatus <;> cases pass <;> simp [secondEnding, confirmedEnding]

/-! ## on the devnet

Task 2 lies on the border of the draw for third verification: the block hash
decides.
-/

/-- A success waiting for its audit. -/
def devWaiting : SecondVerificationPendingTask := pendingOf 1 (devEntry [2] "user" 100 0)

/-- Three passing votes on task 2. -/
def devVotes : SecondVerificationRecord :=
  ⟨[2], 0, ["a", "b", "c"], [true, true, true], 1, [0, 0, 0], [0, 0, 0]⟩

/-- The devnet with the task in the audit queue. -/
def devSecond : State := devAcc.state.mapLedger (park 1 · (devEntry [2] "user" 100 0))

/-- The devnet with the task in third verification. -/
def devThird : State := devSecond.mapLedger fun l =>
  (escalate 1 l devWaiting).setSecondVerificationRecord devVotes

/-- On the devnet the task can be settled. -/
theorem devChargeable (haccounts :
    s.ledger.inferenceAccounts = devAcc.state.ledger.inferenceAccounts)
    (hmark : s.hasFraudMark [2] = false) (hparams : s.params = .default)
    (hfunds : s.moduleBalance devEnv = 1000) :
    Chargeable devEnv s devWaiting (devAddr "user") ⟨defaultDenom, 100⟩ where
  denominated := by
    have hinitial : devAcc.state.ledger.Denominated := atGenesis_user.wellFormed.denominated
    exact hinitial.congr haccounts
  unmarked := hmark
  user := rfl
  account := by
    rw [State.getInferenceAccount, getInferenceAccount, haccounts]
    decide +kernel
  price := by decide +kernel
  denom := rfl
  solvent := by
    rw [balanceOf_congr haccounts]
    decide +kernel
  solventFail := by
    rw [balanceOf_congr haccounts, hparams]
    decide +kernel
  payable := by
    have hworker : devEnv.Accepts (devAddr "worker") := devEnv_accepts (by decide)
    have hfail : failFee s.params 100 = 15 := by
      rw [hparams]
      decide +kernel
    have hpay : ∀ x ∈ [(100 : Int), 15], Payable devEnv s x (devAddr "worker") [] := by
      intro x hx
      simp only [List.mem_cons, List.not_mem_nil, or_false] at hx
      obtain rfl | rfl := hx
      all_goals
        refine ⟨by decide, hworker, fun v hv => by contradiction, ?_, ?_, ?_⟩
        · rw [hfunds]
          decide
        · rw [hfunds, hparams]
          decide +kernel
        · rw [hfunds, hparams]
          decide +kernel
    refine ⟨devAddr "worker", rfl, hpay 100 (by simp), ?_⟩
    rw [hfail]
    exact hpay 15 (by simp)

/-- A success that passes its audit ends the same way in third verification. -/
theorem confirmation_devnet : ∃ s' r' q' stats settled,
      processAuditJudgment devEnv ⟨1, [255], []⟩ devSecond devVotes = .ok s' ∧
      timeoutTurn devEnv ⟨2, [], []⟩ true devThird (thirdPendingOf 1 devWaiting, ⟨1, [2]⟩) =
        .ok r' ∧ judgeThird devEnv ⟨2, [], []⟩ devThird (thirdPendingOf 1 devWaiting)
        (auditPasses devThird.params devVotes.results) devVotes (defaultEpochStats 0) =
        .ok (q', stats, settled) ∧ SameEnd [2] (devAddr "user") devSecond s' devThird r' ∧
      SameEnd [2] (devAddr "user") devSecond s' devThird q' := by
  obtain ⟨s', hs', -⟩ : ∃ s',
      processAuditJudgment devEnv ⟨1, [255], []⟩ devSecond devVotes = .ok s' ∧ True := by
    decide +kernel
  obtain ⟨r', hr', -⟩ : ∃ r', timeoutTurn devEnv ⟨2, [], []⟩ true devThird
      (thirdPendingOf 1 devWaiting, ⟨1, [2]⟩) = .ok r' ∧ True := by decide +kernel
  obtain ⟨⟨q', stats, settled⟩, hq', -⟩ : ∃ r, judgeThird devEnv ⟨2, [], []⟩ devThird
      (thirdPendingOf 1 devWaiting) (auditPasses devThird.params devVotes.results) devVotes
      (defaultEpochStats 0) = .ok r ∧ True := by decide +kernel
  have haudit : PlainAudit devEnv ⟨1, [255], []⟩ devSecond devVotes devWaiting :=
    ⟨by decide +kernel, by decide +kernel, by decide +kernel⟩
  have hsecond := devChargeable (s := devSecond) rfl (by decide +kernel) rfl (by decide +kernel)
  have hthird := devChargeable (s := devThird) rfl (by decide +kernel) rfl (by decide +kernel)
  have hpass : auditPasses devSecond.params devVotes.results = true := by decide +kernel
  have hvotes : devThird.ledger.getSecondVerificationRecord [2] = some devVotes := by
    decide +kernel
  obtain ⟨htimeout, hconfirm⟩ :=
    confirmation_iff haudit hsecond hs' hthird rfl hvotes rfl hr' hthird rfl hq'
  refine ⟨s', r', q', stats, settled, hs', hr', hq', htimeout.mpr ?_, hconfirm.mpr ?_⟩
  · rw [hpass]
    exact .inl rfl
  · intro _
    decide

/-- Three votes overturn the success of task 2.  Judged at once it fails without
a charge; drawn for third verification it times out with a fail fee. -/
theorem third_timeout_charges : AtGenesis devEnv (devnet .default [("user", 1000)]) ∧
      (∃ c, Run devEnv (fun _ _ => True) (devnet .default [("user", 1000)]) c ∧
        (c.state.getSettledTask [2]).map (·.status) = some .failed ∧
        c.state.ledger.balanceOf (devAddr "user") = 1000) ∧
      ∃ c, Run devEnv (fun _ _ => True) (devnet .default [("user", 1000)]) c ∧
        (c.state.getSettledTask [2]).map (·.status) = some .failSettled ∧
        c.state.ledger.balanceOf (devAddr "user") = 985 := by
  refine ⟨atGenesis_user, ?_, ?_⟩
  · exact Run.exists_of_exec [devBatch [devEntry [2] "user" 100 0], .endBlock ⟨2, [255], []⟩,
      devVote "a" [2] false, devVote "b" [2] false, devVote "c" [2] false] (by decide +kernel)
  · exact Run.exists_of_exec [devBatch [devEntry [2] "user" 100 0], .endBlock ⟨2, [], []⟩,
      devVote "a" [2] false, devVote "b" [2] false, devVote "c" [2] false, devEndBlock 20000,
      devEndBlock 20001] (by decide +kernel)

end FunaiChain.Settlement
