import FunaiChain.Settlement.Devnet
import FunaiChain.Settlement.Jailing

/-!
# FunaiChain.Settlement.Penalties

How often one offence is punished, and whether a penalty that is announced is
one.

* `one_offence_one_jail` — which settled entries, audit judgments and timeouts
  raise no jail count by more than one;
* `announced_penalty_discarded` — a batch that is rejected with "proposer
  jailed" leaves the state as it was: the error that announces the penalty
  discards it.
-/

namespace FunaiChain.Settlement

open Ledger MathInt

variable {env : Env}

variable {ctx : Ctx} {s s' : State} {apt : SecondVerificationPendingTask} {w : World} {e : Err}
  {a : Addr} {L : List Addr} {ar : SecondVerificationRecord} {ia : InferenceAccount} {msg : Msg}

/-! ## the other judgments

For every judgment that names an account twice there is a state in which
that account is jailed twice: one with no other worker, with a fraud mark on
the task when it must not be settled, and with a user who can pay nothing
when it must.
-/

/-- A worker with nothing on its record and nothing at stake. -/
def loneWorker (a : Addr) : Worker where
  address := a
  pubkey := ""
  stake := Coin.zero
  status := .active
  jailCount := 0
  jailed := false
  jailUntil := 0
  tombstoned := false
  successStreak := 0
  totalTasks := 0
  totalFeeEarned := Coin.zero
  lastActiveBlock := 0
  reputationScore := reputationInitial
  consecutiveRejects := 0
  avgLatencyMs := 0

def loneWorld (a : Addr) : World where
  bank := ⟨fun _ _ => 0⟩
  workers := Table.empty.set a (loneWorker a) rfl
  workerParams := .default

theorem get_loneWorld (a b : Addr) :
    (loneWorld a).workers.get b = if a = b then some (loneWorker a) else none := by
  refine (Table.get_set _ a b (loneWorker a) rfl).trans ?_
  rw [show Table.empty.get b = (none : Option Worker) from Table.get_empty b]

theorem get_loneWorld_self (a : Addr) : (loneWorld a).workers.get a = some (loneWorker a) := by
  rw [get_loneWorld, if_pos rfl]

theorem offences_loneWorld (a : Addr) : (loneWorld a).offences a = 0 :=
  World.offences_of_get (get_loneWorld_self a)

/-- Jailing the only worker: its count is the number of times it is listed. -/
theorem jailAll_loneWorld (host : Host) (height : Int) (a : Addr) (L : List Addr) :
    ∃ w, (loneWorld a).jailAll host height L = .ok w ∧ w.offences a = min 3 (L.count a) := by
  have hstake : (loneWorld a).Stakeless := by
    intro b worker hb
    rw [get_loneWorld] at hb
    split at hb
    · cases hb
      rfl
    · contradiction
  obtain ⟨w, hw, -⟩ : Yields ((loneWorld a).jailAll host height L) World.Stakeless :=
    World.jailAll_returns hstake height L
  have hregular : World.Jailing.Regular (loneWorker a) := .inr (Nat.zero_le 2)
  refine ⟨w, hw, ?_⟩
  rw [World.offences_jailAll (get_loneWorld_self a) hregular hw, offences_loneWorld, Nat.zero_add]

/-- A list that names an account twice breaks the rule. -/
theorem not_oneJail_of_count (hcount : 1 < L.count a) (hoff : w.offences a = min 3 (L.count a)) :
    ¬ (loneWorld a).OneJail w := by
  intro hone
  have := hone a
  rw [offences_loneWorld] at this
  omega

theorem exists_count_of_not_nodup (h : ¬ L.Nodup) : ∃ a, 1 < L.count a := by
  rw [List.nodup_iff_count_le_one] at h
  push Not at h
  exact h

theorem shouldTriggerThirdVerification_zero (ctx : Ctx) (t : TaskId) :
    shouldTriggerThirdVerification env ctx t 0 = false := by
  simp [shouldTriggerThirdVerification, shouldTrigger]

/-- A state that holds one pending task and draws nothing for third
verification. -/
def probe (params : Params) (l : Ledger) (apt : SecondVerificationPendingTask)
    (hsecond : apt.isThirdVerification = false) (w : World) : State where
  params := params
  ledger := { l with second := l.second.push apt hsecond }
  book := { Book.empty with currentThirdVerificationRate := some 0 }
  world := w

section Probe
variable {params : Params} {l : Ledger} {hsecond : apt.isThirdVerification = false}

theorem pending_probe : (probe params l apt hsecond w).ledger.getSecondVerificationPending
    apt.taskId = some apt := by
  simp [probe, getSecondVerificationPending]

/-- A judgment on such a state is the token-count branch or one of the four
cases. -/
theorem processAuditJudgment_probe (hid : apt.taskId = ar.taskId) :
    processAuditJudgment env ctx (probe params l apt hsecond w) ar =
      match tokenFraud params ar apt with
      | some median =>
        judgeTokenFraud env ctx (probe params l apt hsecond w) apt median
          (judgmentStats ctx (probe params l apt hsecond w).book)
      | none => do
          let r ← judgeSecond env ctx (probe params l apt hsecond w) apt
            (auditPasses params ar.results) (judgmentStats ctx (probe params l apt hsecond w).book)
          return closeJudgment false ar.taskId r := by
  have hrate : (probe params l apt hsecond w).book.getCurrentThirdVerificationRate = 0 := rfl
  have hparams : (probe params l apt hsecond w).params = params := rfl
  unfold processAuditJudgment
  rw [← hid]
  cases hfraud : tokenFraud params ar apt
  all_goals
    simp [pending_probe, hsecond, hrate, hparams, hfraud, shouldTriggerThirdVerification_zero]

end Probe

theorem unfreezePending_unfrozen (h : s.ledger.frozenBalance.get apt.taskId = none) :
    unfreezePending env s apt = .ok s := by
  unfold unfreezePending
  split
  · rfl
  · simp only [unfreezeBalance, h, ok_bind]
    rfl

/-- A marked task is not settled again. -/
theorem settleAuditedTask_marked {asSuccess alreadyPaidFail : Bool} {overrideOutputTokens : UInt32}
    (h : s.hasFraudMark apt.taskId = true) :
    settleAuditedTask env ctx s apt asSuccess alreadyPaidFail overrideOutputTokens =
    .ok (s, true) := by
  rw [settleAuditedTask, if_pos h]

theorem auditedFee_of_maxFee (median : UInt32) (hper : 0 < apt.feePerOutputToken)
    (hcap : 0 ≤ apt.maxFee.amount ∧ apt.maxFee.amount < 2 ^ 64) :
    ∃ x : Int, 0 ≤ x ∧ x < 2 ^ 64 ∧ auditedFee apt median = .ok ⟨defaultDenom, x⟩ := by
  have huint : uint64 apt.maxFee.amount = .ok (UInt64.ofNat apt.maxFee.amount.toNat) := by
    rw [uint64, if_pos hcap]
  unfold auditedFee
  rw [if_pos (by simp [hper]), huint, ok_bind]
  generalize calculatePerTokenFee _ _ _ _ _ = n
  refine ⟨ofUInt64 n, ofUInt64_nonneg n, ofUInt64_lt n, ?_⟩
  exact Coin.new_eq_ok.mpr ⟨validDenom_default, ofUInt64_nonneg n, rfl⟩

/-- A fail whose fee can be computed, with a share that can be a coin. -/
structure FailPriced (params : Params) (apt : SecondVerificationPendingTask)
    (overrideOutputTokens : UInt32) : Prop where
  price : ∃ fee failFee, auditedFee apt overrideOutputTokens = .ok fee ∧ fee.denom = defaultDenom ∧
    MathInt.share fee.amount params.failSettlementFeeRatio 1000 = .ok failFee ∧ 0 ≤ failFee

theorem failPriced_of_maxFee (params : Params) (median : UInt32) (hper : 0 < apt.feePerOutputToken)
    (hcap : 0 ≤ apt.maxFee.amount ∧ apt.maxFee.amount < 2 ^ 64) : FailPriced params apt median := by
  obtain ⟨x, hx, hlt, hfee⟩ := auditedFee_of_maxFee median hper hcap
  have hratio := params.failSettlementFeeRatio.toNat_lt
  have hmul : 0 ≤ x * params.failSettlementFeeRatio.toNat :=
    Int.mul_nonneg hx (Int.natCast_nonneg _)
  have hle : x * params.failSettlementFeeRatio.toNat ≤ 2 ^ 64 * 2 ^ 32 :=
    Int.mul_le_mul (by omega) (by omega) (Int.natCast_nonneg _) (by decide)
  have hshare : share x params.failSettlementFeeRatio 1000 =
      .ok ((x * params.failSettlementFeeRatio.toNat).tdiv 1000) :=
    share_eq_ok.mpr ⟨by decide, fits_of_nonneg hmul (by omega), rfl⟩
  exact ⟨⟨⟨defaultDenom, x⟩, _, hfee, rfl, hshare, Int.tdiv_nonneg hmul (by decide)⟩⟩

/-- A user who can pay nothing: the fail is settled for nothing and the worker
jailed. -/
theorem settleAuditedFail_broke (apt : SecondVerificationPendingTask) (u : Addr) {x amount : Int}
    (hbalance : ia.balance = ⟨defaultDenom, 0⟩)
    (hshare : share x s.params.failSettlementFeeRatio 1000 = .ok amount) (hnn : 0 ≤ amount)
    (hjail : s.world.jailWorker env.toHost ctx.height a = .ok w) :
    ∃ s', settleAuditedFail env ctx s apt u a ia ⟨defaultDenom, x⟩ = .ok (some s') ∧
    s'.world = w := by
  obtain ⟨-, hfits, hamount⟩ := share_eq_ok.mp hshare
  unfold settleAuditedFail settleFail
  rw [hshare, ok_bind]
  have hnew : ∀ {y : Int}, 0 ≤ y → Coin.new defaultDenom y = .ok ⟨defaultDenom, y⟩ :=
    fun hy => Coin.new_eq_ok.mpr ⟨validDenom_default, hy, rfl⟩
  rw [hnew hnn, ok_bind, hbalance]
  have hsplit : ∃ short, splitShortfall
      (Coin.isPositive ⟨defaultDenom, amount⟩ && decide (0 < amount)) ⟨defaultDenom, amount⟩ 0 =
      .ok (⟨defaultDenom, 0⟩, short) := by
    unfold splitShortfall
    rw [hnew (le_refl 0), ok_bind]
    by_cases hpos : 0 < amount
    · have hlt : MathInt.Fits (amount - 0) := by
        unfold MathInt.Fits at hfits ⊢
        have := Int.natAbs_tdiv_le_natAbs (x * s.params.failSettlementFeeRatio.toNat) 1000
        omega
      have hsub : sub amount 0 = .ok amount := sub_eq_ok.mpr ⟨by omega, hlt⟩
      refine ⟨⟨defaultDenom, amount⟩, ?_⟩
      rw [if_pos (by simp [Coin.isPositive, hpos]), ok_bind, hsub, ok_bind, hnew hnn, ok_bind]
      rfl
    · obtain rfl : amount = 0 := by omega
      exact ⟨⟨defaultDenom, 0⟩, rfl⟩
  obtain ⟨short, hsplit⟩ := hsplit
  have hsub : Coin.sub ⟨defaultDenom, 0⟩ ⟨defaultDenom, 0⟩ = .ok ⟨defaultDenom, 0⟩ := by
    decide
  dsimp only
  rw [hsplit, ok_bind]
  rw [hsub, ok_bind]
  have hpay : ∀ s₁ : State, payOutFail env s₁ ⟨defaultDenom, 0⟩ (verifierRows apt) =
      .ok (.ok (s₁, ⟨0, 0⟩)) := fun s₁ => rfl
  rw [hpay, ok_bind]
  have hjail' : ∀ f : Ledger → Ledger, (s.mapLedger f).jailWorker env ctx a =
      .ok { s.mapLedger f with world := w } := by
    intro f
    rw [State.jailWorker, show (s.mapLedger f).world = s.world from rfl, hjail]
    rfl
  dsimp only
  rw [hjail', ok_bind]
  exact ⟨_, rfl, rfl⟩

theorem settleAuditedTask_broke {u : Addr} (median : UInt32)
    (hmark : s.hasFraudMark apt.taskId = false)
    (hfrozen : s.ledger.frozenBalance.get apt.taskId = none)
    (huser : env.accAddressFromBech32 apt.userAddress = some u)
    (hworker : env.accAddressFromBech32 apt.workerAddress = some a)
    (hia : s.getInferenceAccount u = some ia) (hbalance : ia.balance = ⟨defaultDenom, 0⟩)
    (hprice : FailPriced s.params apt median)
    (hjail : s.world.jailWorker env.toHost ctx.height a = .ok w) :
    ∃ s', settleAuditedTask env ctx s apt false false median = .ok (s', true) ∧ s'.world = w := by
  obtain ⟨⟨denom, x⟩, amount, hfee, rfl, hshare, hnn⟩ := hprice.price
  obtain ⟨s', hsettle, hworld⟩ := settleAuditedFail_broke apt u hbalance hshare hnn hjail
  refine ⟨s', ?_, hworld⟩
  have hunfreeze : unfreezeBalance s.ledger u apt.taskId = .ok (s.ledger, .ok Coin.zero) := by
    rw [unfreezeBalance, hfrozen]
  rw [settleAuditedTask, hmark]
  simp only [Bool.false_eq_true, if_false, huser, hworker, hia, Option.isNone_some, hunfreeze,
    ok_bind, hfee]
  rw [hsettle]
  rfl

/-- The token-count branch is the settlement of a state in which the jailings
are done. -/
theorem judgeTokenFraud_eq (median : UInt32) (stats : EpochStats)
    (hfrozen : s.ledger.frozenBalance.get apt.taskId = none)
    (hjail : s.world.jailAll env.toHost ctx.height (accounts env apt.colluders) = .ok w) :
    ∃ s₁ : State, s₁.world = w ∧ s₁.ledger.fraudMarks = s.ledger.fraudMarks ∧
    s₁.ledger.frozenBalance = s.ledger.frozenBalance ∧
    s₁.ledger.inferenceAccounts = s.ledger.inferenceAccounts ∧
    judgeTokenFraud env ctx s apt median stats =
    (settleAuditedTask env ctx s₁ apt false false median >>= fun r => .ok r.1) := by
  rw [SecondVerificationPendingTask.colluders, accounts_cons, World.jailAll_append] at hjail
  obtain ⟨w₁, hworker, hvoters⟩ := bind_eq_ok.mp hjail
  unfold judgeTokenFraud
  rw [unfreezePending_unfrozen hfrozen, ok_bind, State.jailWorkerAt_eq, State.jailAll, hworker]
  simp only [ok_bind, pure_eq_ok, jailVoters_eq, State.jailAll, hvoters]
  refine ⟨_, ?_, ?_, ?_, ?_, rfl⟩
  · rfl
  all_goals cases apt.isThirdVerification <;> rfl

/-- **What a broken rule looks like**: a state with the pending task on which the
judgment jails an account twice. -/
def JailsTwice (env : Env) (ctx : Ctx) (params : Params) (ar : SecondVerificationRecord)
    (apt : SecondVerificationPendingTask) : Prop :=
  ∃ s s', s.params = params ∧ s.ledger.getSecondVerificationPending ar.taskId = some apt ∧
    processAuditJudgment env ctx s ar = .ok s' ∧ ¬ s.world.OneJail s'.world

section Twice
variable {params : Params} {median : UInt32}
variable (hid : apt.taskId = ar.taskId) (hsecond : apt.isThirdVerification = false)
include hid hsecond

/-- The worker is jailed in the token-count branch and in the settlement. -/
theorem jailsTwice_of_resettled (hfraud : tokenFraud params ar apt = some median)
    (h : Resettled env apt) : JailsTwice env ctx params ar apt := by
  obtain ⟨u, huser⟩ := Option.isSome_iff_exists.mp h.user
  obtain ⟨a, hworker⟩ := Option.isSome_iff_exists.mp h.worker
  have hcount : 1 < (accounts env apt.colluders ++ [a]).count a := by
    rw [SecondVerificationPendingTask.colluders, accounts, List.filterMap_cons_some hworker,
      List.count_append, List.count_cons_self, List.count_singleton_self]
    omega
  obtain ⟨w, hw, hoff⟩ :=
    jailAll_loneWorld env.toHost ctx.height a (accounts env apt.colluders ++ [a])
  rw [World.jailAll_append] at hw
  obtain ⟨w₁, hjail, hlast⟩ := bind_eq_ok.mp hw
  rw [World.jailAll_singleton] at hlast
  let ia : InferenceAccount := ⟨u, ⟨defaultDenom, 0⟩, Coin.zero⟩
  let s := probe params (empty.setInferenceAccount ia) apt hsecond (loneWorld a)
  have hunfrozen : s.ledger.frozenBalance.get apt.taskId = none := Table.get_empty _
  have hunmarked : s.ledger.fraudMarks.get apt.taskId = none := Table.get_empty _
  obtain ⟨s₁, rfl, hmarks, hfrozen, haccounts, heq⟩ :=
    judgeTokenFraud_eq median (judgmentStats ctx s.book) hunfrozen hjail
  have hia : s₁.getInferenceAccount u = some ia := by
    rw [State.getInferenceAccount, getInferenceAccount, haccounts]
    exact (getInferenceAccount_set _ ia u).trans (if_pos rfl)
  have hmark : s₁.hasFraudMark apt.taskId = false := by
    rw [State.hasFraudMark, hasFraudMark, hmarks, Table.has, hunmarked]
    rfl
  rw [← hfrozen] at hunfrozen
  have hprice : FailPriced s₁.params apt median :=
    failPriced_of_maxFee s₁.params median (tokenFraud_spec hfraud).2 h.maxFee
  obtain ⟨s', hsettle, rfl⟩ :=
    settleAuditedTask_broke median hmark hunfrozen huser hworker hia rfl hprice hlast
  refine ⟨s, s', rfl, hid ▸ pending_probe, ?_, not_oneJail_of_count hcount hoff⟩
  rw [processAuditJudgment_probe hid, hfraud]
  dsimp only
  rw [heq, hsettle]
  rfl

/-- A state with the pending task under a fraud mark. -/
def marked (params : Params) (apt : SecondVerificationPendingTask)
    (hsecond : apt.isThirdVerification = false) (w : World) : State :=
  probe params (Ledger.empty.setFraudMark apt.taskId) apt hsecond w

omit hid hsecond in
theorem marked_hasFraudMark (hsecond : apt.isThirdVerification = false) (w : World) :
    (marked params apt hsecond w).hasFraudMark apt.taskId = true := by
  change (empty.setFraudMark apt.taskId).hasFraudMark apt.taskId = true
  simp [hasFraudMark_set]

/-- An account that the token-count branch names twice. -/
theorem jailsTwice_of_colluders (hfraud : tokenFraud params ar apt = some median)
    (h : ¬ (accounts env apt.colluders).Nodup) : JailsTwice env ctx params ar apt := by
  obtain ⟨a, hcount⟩ := exists_count_of_not_nodup h
  obtain ⟨w, hjail, hoff⟩ := jailAll_loneWorld env.toHost ctx.height a (accounts env apt.colluders)
  let s := marked params apt hsecond (loneWorld a)
  have hunfrozen : s.ledger.frozenBalance.get apt.taskId = none := Table.get_empty _
  obtain ⟨s₁, rfl, hmarks, -, -, heq⟩ :=
    judgeTokenFraud_eq median (judgmentStats ctx s.book) hunfrozen hjail
  have hmark : s₁.hasFraudMark apt.taskId = true := by
    rw [State.hasFraudMark, hasFraudMark, hmarks]
    exact marked_hasFraudMark hsecond (loneWorld a)
  refine ⟨s, s₁, rfl, hid ▸ pending_probe, ?_, not_oneJail_of_count hcount hoff⟩
  refine (processAuditJudgment_probe hid).trans ?_
  rw [hfraud]
  refine heq.trans ?_
  rw [settleAuditedTask_marked hmark]
  rfl

/-- The four cases: a judgment that jails a list with an account twice in it. -/
theorem jailsTwice_of_second (hfraud : tokenFraud params ar apt = none) (h : ¬ L.Nodup)
    (hjudge : ∀ (s : State) (stats : EpochStats) (w : World), s.hasFraudMark apt.taskId = true →
      s.jailAll env ctx L = .ok { s with world := w } →
      ∃ r, judgeSecond env ctx s apt (auditPasses params ar.results) stats = .ok r ∧
        r.1.world = w) : JailsTwice env ctx params ar apt := by
  obtain ⟨a, hcount⟩ := exists_count_of_not_nodup h
  obtain ⟨w, hjail, hoff⟩ := jailAll_loneWorld env.toHost ctx.height a L
  let s := marked params apt hsecond (loneWorld a)
  have hall : s.jailAll env ctx L = .ok { s with world := w } := by
    rw [State.jailAll, show s.world = loneWorld a from rfl, hjail]
    rfl
  obtain ⟨r, hr, hworld⟩ := hjudge s (judgmentStats ctx s.book) w
    (marked_hasFraudMark hsecond (loneWorld a)) hall
  refine ⟨s, closeJudgment false ar.taskId r, rfl, hid ▸ pending_probe, ?_, ?_⟩
  · refine (processAuditJudgment_probe hid).trans ?_
    rw [hfraud]
    exact bind_eq_ok.mpr ⟨r, hr, rfl⟩
  · rw [world_closeJudgment, hworld]
    exact not_oneJail_of_count hcount hoff

/-- An account that a failed audit of a success names twice. -/
theorem jailsTwice_of_approvers (hfraud : tokenFraud params ar apt = none)
    (hstatus : apt.originalStatus = .success) (hpass : auditPasses params ar.results = false)
    (h : ¬ (accounts env apt.approvers).Nodup) : JailsTwice env ctx params ar apt := by
  refine jailsTwice_of_second hid hsecond hfraud h fun s stats w _ hall => ?_
  rw [judgeSecond, hstatus, hpass]
  simp only [jailWorkerAndVerifiers_eq, hall, decide_true, Bool.and_false, Bool.false_eq_true,
    if_false, Bool.not_false, Bool.and_true, if_true, ok_bind]
  exact ⟨_, rfl, rfl⟩

/-- An account that a passed audit of a fail names twice. -/
theorem jailsTwice_of_rejecters (hfraud : tokenFraud params ar apt = none)
    (hstatus : apt.originalStatus = .fail) (hpass : auditPasses params ar.results = true)
    (h : ¬ (accounts env apt.rejecters).Nodup) : JailsTwice env ctx params ar apt := by
  refine jailsTwice_of_second hid hsecond hfraud h fun s stats w hmark hall => ?_
  have hrejecters : jailFailVerifiers env ctx s apt = .ok { s with world := w } := by
    rw [jailFailVerifiers, jailVoters_eq]
    exact hall
  rw [judgeSecond, hstatus, hpass]
  simp only [settleAuditedTask_marked hmark, hrejecters, reduceCtorEq, decide_false, decide_true,
    Bool.false_and, Bool.true_and, Bool.false_eq_true, if_false, if_true, ok_bind]
  exact ⟨_, rfl, rfl⟩

end Twice

/-- **An audit judgment** jails no account twice, in any state, exactly when it
names none twice. -/
theorem judgedOnce_iff {params : Params} (hid : apt.taskId = ar.taskId)
    (hsecond : apt.isThirdVerification = false) :
    (∀ s s', s.params = params → s.ledger.getSecondVerificationPending ar.taskId = some apt →
    processAuditJudgment env ctx s ar = .ok s' → s.world.OneJail s'.world) ↔
    JudgedOnce env params ar apt := by
  constructor
  · intro hall
    by_contra hnot
    have htwice : JailsTwice env ctx params ar apt := by
      unfold JudgedOnce at hnot
      split at hnot
      · next median hfraud =>
        rw [Classical.not_and_iff_not_or_not, not_not] at hnot
        obtain hresettled | hnodup := hnot
        · exact jailsTwice_of_resettled hid hsecond hfraud hresettled
        · exact jailsTwice_of_colluders hid hsecond hfraud hnodup
      · next hfraud =>
        rw [Classical.not_and_iff_not_or_not] at hnot
        push Not at hnot
        obtain ⟨hstatus, hpass, hnodup⟩ | ⟨hstatus, hpass, hnodup⟩ := hnot
        · exact jailsTwice_of_approvers hid hsecond hfraud hstatus hpass hnodup
        · exact jailsTwice_of_rejecters hid hsecond hfraud hstatus hpass hnodup
    obtain ⟨s, s', hparams, hpending, hjudge, hbroken⟩ := htwice
    exact hbroken (hall s s' hparams hpending hjudge)
  · rintro honce s s' rfl hpending hjudge
    exact (processAuditJudgment_oneJail hpending honce).get hjudge

/-! ## one offence, one jail -/

/-- **One offence, one jail.**  A settled entry raises no jail count by more than
one unless its worker is jailed for the token count and for the fail; an audit
judgment does so in no state exactly when it names no account twice and
settles no token fraud; a timed-out task never does. -/
theorem one_offence_one_jail (env : Env) (ctx : Ctx) :
    (∀ acc acc' entry, settleEntry env ctx acc entry = .ok acc' →
      (acc.state.world.OneJail acc'.state.world ↔ ¬ JailedTwice env ctx acc.state entry)) ∧
    (∀ params ar apt, apt.taskId = ar.taskId → apt.isThirdVerification = false →
      ((∀ s s', s.params = params → s.ledger.getSecondVerificationPending ar.taskId = some apt →
          processAuditJudgment env ctx s ar = .ok s' → s.world.OneJail s'.world) ↔
        JudgedOnce env params ar apt)) ∧
    (∀ third s s' turn, timeoutTurn env ctx third s turn = .ok s' → s.world.OneJail s'.world) :=
  ⟨fun _ _ _ h => settleEntry_oneJail h, fun _ _ _ hid hsecond => judgedOnce_iff hid hsecond,
    fun _ _ _ _ h => timeoutTurn_oneJail.get h⟩

/-- A batch of one entry. -/
def devSingle (entry : SettlementEntry) : Msg :=
  .batchSettlement {
    proposer := "worker"
    merkleRoot := (computeMerkleRoot devEnv [entry]).getD []
    entries := [entry]
    proposerSig := [1]
    resultCount := 1 }

/-- A devnet with one entry in the audit queue. -/
def devParked (entry : SettlementEntry) : State :=
  deliver devEnv ⟨1, [], []⟩ (devnet Params.default [("user", 1000)]).state (devSingle entry)

/-- A success that a verifier approved, and the votes that overturn it. -/
def devDoubted : SettlementEntry :=
  { devEntry [16] "user" 100 5000 with verifierResults := [⟨"x", true, [], [], 0, 0⟩] }

def devDoubts : SecondVerificationRecord :=
  ⟨[16], 0, ["a", "b", "c"], [false, false, false], 1, [0, 0, 0], [0, 0, 0]⟩

/-- A failed entry that is settled, a success that its audit overturns, and a fail
whose audit times out: the worker is jailed once by each. -/
theorem one_offence_one_jail_devnet :
    (∃ acc', settleEntry devEnv ⟨1, [], []⟩
        ⟨(devnet Params.default [("user", 1000)]).state, 0, 0, 0⟩
        (devFail [255] "user" 100 5000) = .ok acc' ∧
      acc'.state.world.offences (devAddr "worker") = 1 ∧
      (devnet Params.default [("user", 1000)]).state.world.OneJail acc'.state.world) ∧
    (∃ s', processAuditJudgment devEnv ⟨1, [], []⟩ (devParked devDoubted) devDoubts = .ok s' ∧
      s'.world.offences (devAddr "worker") = 1 ∧
      (devParked devDoubted).world.OneJail s'.world) ∧
    ∃ s', timeoutTurn devEnv ⟨2, [], []⟩ false (devParked (devFail [16] "user" 100 5000))
        (pendingOf 1 (devFail [16] "user" 100 5000), ⟨1, [16]⟩) = .ok s' ∧
      s'.world.offences (devAddr "worker") = 1 ∧
      (devParked (devFail [16] "user" 100 5000)).world.OneJail s'.world := by
  obtain ⟨hentry, hjudgment, -⟩ := one_offence_one_jail devEnv ⟨1, [], []⟩
  obtain ⟨-, -, htimeout⟩ := one_offence_one_jail devEnv ⟨2, [], []⟩
  refine ⟨?_, ?_, ?_⟩
  · refine exists_and_imp (q := fun acc' => acc'.state.world.offences (devAddr "worker") = 1)
      (by decide +kernel) fun acc' hok hoffences => ⟨hoffences, ?_⟩
    rw [hentry _ acc' _ hok]
    intro htwice
    obtain ⟨u, a, -, hdishonest, -⟩ := htwice.worker
    have hper : (devFail [255] "user" 100 5000).isPerToken = false := rfl
    simp [dishonestJail, hper] at hdishonest
  · have honce : JudgedOnce devEnv Params.default devDoubts (pendingOf 1 devDoubted) := by
      have hfraud : tokenFraud Params.default devDoubts (pendingOf 1 devDoubted) = none := by
        decide +kernel
      unfold JudgedOnce
      rw [hfraud]
      decide +kernel
    have hpending : (devParked devDoubted).ledger.getSecondVerificationPending [16] =
        some (pendingOf 1 devDoubted) := by decide +kernel
    have hparams : (devParked devDoubted).params = Params.default := by decide +kernel
    refine exists_and_imp (q := fun s' => s'.world.offences (devAddr "worker") = 1)
      (by decide +kernel) fun s' hok hoffences => ⟨hoffences, ?_⟩
    exact (hjudgment _ devDoubts _ rfl rfl).mpr honce _ s' hparams hpending hok
  · exact exists_and_imp (q := fun s' => s'.world.offences (devAddr "worker") = 1)
      (by decide +kernel) fun s' hok hoffences => ⟨hoffences, htimeout false _ s' _ hok⟩

/-- A per-token entry whose worker claims a hundred output tokens. -/
def devClaim (t : TaskId) (verifiers : List VerifierResult) : SettlementEntry :=
  { devEntry t "user" 0 5000 with
    feePerInputToken := 1
    feePerOutputToken := 1
    maxFee := ⟨defaultDenom, 500⟩
    workerOutputTokens := 100
    verifierResults := verifiers }

/-- A row that counted ten output tokens. -/
def devCounted (name : String) : VerifierResult := ⟨name, true, [], [], 0, 10⟩

/-- A passing vote that counted ten output tokens. -/
def devCount (secondVerifier : String) (t : TaskId) : Msg :=
  .secondVerificationResult ⟨secondVerifier, t, 0, true, [1], 0, 10⟩

/-- **The rule is broken** by one message in three reachable states: the last
vote on a task whose worker is also listed as a verifier; the last vote that
finds a token fraud; and a third dishonest token count in an entry that
failed. -/
theorem one_offence_two_jails :
    (∃ c, Run devEnv (fun _ _ => True) (devnet Params.default [("user", 1000)]) c ∧
      c.state.world.offences (devAddr "worker") + 1 < (deliver devEnv c.ctx c.state
          (.secondVerificationResult ⟨"c", [16], 0, false, [1], 0, 0⟩)).world.offences
          (devAddr "worker")) ∧
    (∃ c, Run devEnv (fun _ _ => True) (devnet devBilling [("user", 1000)]) c ∧
      c.state.world.offences (devAddr "worker") + 1 <
        (deliver devEnv c.ctx c.state (devCount "c" [17])).world.offences (devAddr "worker")) ∧
    ∃ c, Run devEnv (fun _ _ => True) (devnet devBilling [("user", 1000)]) c ∧
      c.state.world.offences (devAddr "worker") + 1 < (deliver devEnv c.ctx c.state (devSingle
          { devClaim [253] [devCounted "x", devCounted "y"] with status := .fail })).world.offences
          (devAddr "worker") := by
  refine ⟨?_, ?_, ?_⟩
  · exact Run.exists_of_exec
      [devBatch [{ devEntry [16] "user" 100 5000 with
          verifierResults := [⟨"worker", true, [], [], 0, 0⟩] }],
        devVote "a" [16] false, devVote "b" [16] false] (by decide +kernel)
  · exact Run.exists_of_exec
      [devBatch [devClaim [17] []], .tx (devCount "a" [17]), .tx (devCount "b" [17])]
      (by decide +kernel)
  · exact Run.exists_of_exec
      [devBatch [devClaim [255] [devCounted "x", devCounted "y"],
        devClaim [254] [devCounted "x", devCounted "y"]]] (by decide +kernel)

/-! ## announced penalties -/

/-- The errors that say that the proposer was jailed. -/
inductive AnnouncesJail : Msg → Err → Prop
  | resultCount (msg : MsgBatchSettlement) :
      AnnouncesJail (.batchSettlement msg) (.wrap .invalidSettlement
        "result_count mismatch with actual entries, proposer jailed")
  | merkleRoot (msg : MsgBatchSettlement) :
      AnnouncesJail (.batchSettlement msg) (.wrap .invalidSettlement
        "merkle root verification failed, proposer jailed")
  | reserveMerkleRoot (msg : MsgBatchReserve) :
      AnnouncesJail (.batchReserve msg) (.wrap .invalidSettlement
        "reserve merkle root verification failed, proposer jailed")
  | reserveResultCount (msg : MsgBatchReserve) :
      AnnouncesJail (.batchReserve msg) (.wrap .invalidSettlement
        ("reserve result_count mismatch: declared " ++ toString msg.resultCount ++
          ", actual " ++ toString msg.entries.length ++ ", proposer jailed"))

/-- The penalty that such an error announces: the jail count of the proposer is
raised by one, and nothing else changes. -/
structure Penalised (env : Env) (s s' : State) (proposer : String) : Prop where
  jailed : ∃ a worker worker', env.accAddressFromBech32 proposer = some a ∧
    s.world.workers.get a = some worker ∧ s'.world.workers.get a = some worker' ∧
    worker'.jailCount.toNat = worker.jailCount.toNat + 1
  others : ∀ b, env.accAddressFromBech32 proposer ≠ some b →
    s'.world.workers.get b = s.world.workers.get b
  bank : s'.world.bank = s.world.bank
  ledger : s'.ledger = s.ledger
  book : s'.book = s.book
  params : s'.params = s.params

/-- The rejection of a signature announces nothing. -/
theorem signatureError_not_announced :
    ¬ AnnouncesJail msg (.wrap .invalidSettlement "proposer signature verification failed") := by
  intro h
  generalize he : (.wrap .invalidSettlement "proposer signature verification failed" : Err) = e at h
  have htext : e.text = "proposer signature verification failed" := by rw [← he]; rfl
  cases h with
  | resultCount | merkleRoot | reserveMerkleRoot => simp [ModuleErr.wrap] at htext
  | reserveResultCount =>
    have hhead := congrArg (fun t => t.toList.head?) htext
    simp [ModuleErr.wrap] at hhead

/-- A rejected settlement batch: a bad signature, or the proposer was jailed. -/
theorem processBatchSettlement_error {msg : MsgBatchSettlement} :
    OnValue (fun r => ∀ e, r.2 = .error e →
    e = .wrap .invalidSettlement "proposer signature verification failed" ∨
    s.jailWorkerAt env ctx msg.proposer = .ok r.1) (processBatchSettlement env ctx s msg) := by
  refine .either (.after fun _ hjail => .ok fun _ _ => .inr hjail) ?_
  split
  · exact .ok fun e he => .inl (Except.error.inj he).symm
  · exact .either (.after fun _ hjail => .ok fun _ _ => .inr hjail) <|
      .after fun _ _ => .after fun _ _ => .ok nofun

/-- A rejected reserve batch likewise. -/
theorem processBatchReserve_error {msg : MsgBatchReserve} : OnValue (fun r => ∀ e, r.2 = .error e →
    e = .wrap .invalidSettlement "proposer signature verification failed" ∨
    s.jailWorkerAt env ctx msg.proposer = .ok r.1) (processBatchReserve env ctx s msg) := by
  unfold processBatchReserve
  split
  · exact .ok fun e he => .inl (Except.error.inj he).symm
  · exact .either (.after fun _ hjail => .ok fun _ _ => .inr hjail) <|
      .either (.after fun _ hjail => .ok fun _ _ => .inr hjail) <| .after fun _ _ => .ok nofun

theorem error_of_map {α : Type} {r : Except Err α} (h : r.map (fun _ => ()) = .error e) :
    r = .error e := by
  cases r with
  | error => exact congrArg _ (Except.error.inj h)
  | ok => contradiction

/-- The announcing branches jail the proposer, in the state that is thrown
away. -/
theorem jailed_of_announced (h : handle env ctx s msg = .ok (s', .error e))
    (hannounced : AnnouncesJail msg e) : s.jailWorkerAt env ctx msg.signer = .ok s' := by
  have hrejected : e = .wrap .invalidSettlement "proposer signature verification failed" ∨
      s.jailWorkerAt env ctx msg.signer = .ok s' := by
    cases hannounced with
    | resultCount | merkleRoot =>
      obtain ⟨⟨s₁, r⟩, hbatch, h⟩ := bind_eq_ok.mp h
      obtain ⟨rfl, hr⟩ := Prod.mk.inj (Except.ok.inj h)
      exact processBatchSettlement_error.get hbatch _ (error_of_map hr)
    | reserveMerkleRoot | reserveResultCount =>
      obtain ⟨⟨s₁, r⟩, hbatch, h⟩ := bind_eq_ok.mp h
      obtain ⟨rfl, hr⟩ := Prod.mk.inj (Except.ok.inj h)
      exact processBatchReserve_error.get hbatch _ (error_of_map hr)
  obtain rfl | hjail := hrejected
  · exact absurd hannounced signatureError_not_announced
  · exact hjail

/-- **Announced penalties are discarded.**  A handler that reports that the
proposer was jailed has jailed it, and the transaction then keeps the state
from before: no announced penalty takes effect. -/
theorem announced_penalty_discarded (env : Env) (ctx : Ctx) (s s' : State) (msg : Msg) (e : Err)
    (h : handle env ctx s msg = .ok (s', .error e)) (hannounced : AnnouncesJail msg e) :
    s.jailWorkerAt env ctx msg.signer = .ok s' ∧ deliver env ctx s msg = s ∧
      ¬ Penalised env s (deliver env ctx s msg) msg.signer := by
  have hkept : deliver env ctx s msg = s := by
    unfold deliver
    rw [h]
    split <;> rfl
  refine ⟨jailed_of_announced h hannounced, hkept, ?_⟩
  rw [hkept]
  intro hpenalised
  obtain ⟨a, worker, worker', -, hget, hget', hcount⟩ := hpenalised.jailed
  rw [hget] at hget'
  cases hget'
  omega

/-- A settlement batch whose Merkle root is not that of its entries. -/
def devForged : MsgBatchSettlement where
  proposer := "worker"
  merkleRoot := [1]
  entries := [devEntry [255] "user" 100 5000]
  proposerSig := [1]
  resultCount := 1

/-- The handler's answer to that batch on a devnet. -/
theorem handle_devForged : ∃ s',
    handle devEnv ⟨1, [], []⟩ (devnet Params.default [("user", 1000)]).state
    (.batchSettlement devForged) = .ok (s', .error (.wrap .invalidSettlement
    "merkle root verification failed, proposer jailed")) ∧
    s'.world.offences (devAddr "worker") = 1 := by
  obtain ⟨⟨s', r⟩, hok, rfl, hoff⟩ : ∃ p : State × Except Err Unit,
      handle devEnv ⟨1, [], []⟩ (devnet Params.default [("user", 1000)]).state
        (.batchSettlement devForged) = .ok p ∧
      p.2 = .error (.wrap .invalidSettlement "merkle root verification failed, proposer jailed") ∧
      p.1.world.offences (devAddr "worker") = 1 := by decide +kernel
  exact ⟨s', hok, hoff⟩

/-- The committed state is the one from before the batch. -/
theorem announced_penalty_discarded_devnet :
    deliver devEnv ⟨1, [], []⟩ (devnet Params.default [("user", 1000)]).state
      (.batchSettlement devForged) = (devnet Params.default [("user", 1000)]).state := by
  obtain ⟨s', hok, -⟩ := handle_devForged
  exact (announced_penalty_discarded devEnv _ _ s' (.batchSettlement devForged) _ hok
    (.merkleRoot devForged)).2.1

/-- **An announced penalty without effect**: a signed batch with a wrong Merkle
root is admitted, its handler reports that the proposer was jailed, and the
proposer's jail count is still zero after the transaction. -/
theorem announced_penalty_missing : ∃ s', admitted devEnv (.batchSettlement devForged) = true ∧
      handle devEnv ⟨1, [], []⟩ (devnet Params.default [("user", 1000)]).state
          (.batchSettlement devForged) = .ok (s', .error (.wrap .invalidSettlement
          "merkle root verification failed, proposer jailed")) ∧
      s'.world.offences (devAddr "worker") = 1 ∧
      (deliver devEnv ⟨1, [], []⟩ (devnet Params.default [("user", 1000)]).state
        (.batchSettlement devForged)).world.offences (devAddr "worker") = 0 := by
  obtain ⟨s', hok, hoff⟩ := handle_devForged
  exact ⟨s', by decide +kernel, hok, hoff, by decide +kernel⟩

end FunaiChain.Settlement
