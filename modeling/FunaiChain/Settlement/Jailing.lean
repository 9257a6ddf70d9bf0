import FunaiChain.Settlement.EndBlock
import FunaiChain.Worker.Jailing

/-!
# FunaiChain.Settlement.Jailing

Whom the settlement keeper jails, and how often.  Every function of a batch,
a judgment or a timeout gets one lemma that names the accounts it jails
(`World.JailedOnly`, `World.Jails`).

* a settled entry jails its worker once for a dishonest token count and once
  for a fail (`settleEntry_oneJail`);
* an audit judgment jails whoever the pending entry names, as often as it is
  named, and after a token fraud the worker once more
  (`processAuditJudgment_oneJail`);
* a timed-out task jails its worker at most once (`timeoutTurn_oneJail`).
-/

namespace FunaiChain.Settlement

open State SecondVerificationPendingTask

variable {env : Env}
variable {s s' : State} {ctx : Ctx} {a u : Addr} {apt : SecondVerificationPendingTask}
  {baseFee fee : Coin} {entry : SettlementEntry} {vs : List VerifierResult} {ia : InferenceAccount}
  {split : Split} {denom : String} {acc acc' : BatchAcc}
  {alreadyPaidFail asSuccess auditPass : Bool} {L : List Addr}
  {median overrideOutputTokens : UInt32} {d total : Int} {ar : SecondVerificationRecord}
  {stats : EpochStats}

/-! ## payouts jail nobody -/

/-- A payment of a split: to the executor, or to a verifier whose fee is counted. -/
inductive Payout (env : Env) : State → State → Prop
  | executor {s s' : State} {dst : Addr} {c : Coin} (paid : s.payFromModule env dst c = some s') :
      Payout env s s'
  | verifier {s s' : State} {t : String} {dst : Addr} {c : Coin} {amount : Int} {b : Book}
      (address : env.accAddressFromBech32 t = some dst)
      (paid : s.payFromModule env dst c = some s')
      (credited : incrementVerifierEpochFee env s'.book t amount = .ok b) :
      Payout env s { s' with book := b }

/-- The payments of a split, one after the other. -/
abbrev Payouts (env : Env) : State → State → Prop := Relation.ReflTransGen (Payout env)

theorem payVerifiers_payouts {perVerifier : Int} : OnValue (OnValue fun r => Payouts env s r.1)
    (payVerifiers env denom total perVerifier vs s d) := by
  induction vs generalizing s d with
  | nil => exact .ok (.ok .refl)
  | cons _ _ ih =>
    unfold payVerifiers
    split
    · exact ih
    next a ha =>
    refine .after fun amount _ => .after fun coin _ => .either ?_ <| .after fun _ _ => ih
    split
    · exact .ok .error
    next s₁ hpay =>
    refine .after fun book hbook => .after fun _ _ => ih.mono fun r hr => hr.mono fun p hp => ?_
    exact .head (.verifier ha hpay hbook) hp

theorem shareAmongVerifiers_payouts :
    OnValue (OnValue fun r => Payouts env s r.1) (shareAmongVerifiers env s denom total vs) :=
  .either (.ok (.ok .refl)) <| .after fun _ _ => payVerifiers_payouts

theorem payExecutor_payouts {amount : Int} :
    OnValue (OnValue (Payouts env s)) (payExecutor env s denom amount a) := by
  refine .after fun coin _ => .either ?_ <| .ok (.ok .refl)
  split
  · exact .ok .error
  · next s₁ hpay => exact .ok (.ok (.single (.executor hpay)))

theorem distributeFailFee_payouts :
    OnValue (OnValue fun r => Payouts env s r.1) (distributeFailFee env s fee vs) := by
  refine .either (.ok (.ok .refl)) <| .after fun _ _ => ?_
  exact shareAmongVerifiers_payouts.bind_result (fun _ => .ok .error) fun _ hr => .ok (.ok hr)

theorem payOutSuccess_payouts :
    OnValue (OnValue fun r => Payouts env s r.1) (payOutSuccess env s fee a vs) := by
  refine .either (.after fun _ _ => .after fun _ _ => ?_) <| .ok (.ok .refl)
  refine shareAmongVerifiers_payouts.bind_result (fun _ => .ok .error) fun r hr => ?_
  refine .after fun _ _ => .after fun _ _ => ?_
  exact payExecutor_payouts.bind_result (fun _ => .ok .error) fun s₂ hs₂ => .ok (.ok (hr.trans hs₂))

theorem payOutFail_payouts :
    OnValue (OnValue fun r => Payouts env s r.1) (payOutFail env s fee vs) :=
  .either distributeFailFee_payouts <| .ok (.ok .refl)

/-- **Payouts touch no worker.** -/
theorem Payouts.workers_eq (h : Payouts env s s') : s'.world.workers = s.world.workers := by
  induction h with
  | refl => rfl
  | tail _ step ih =>
    cases step with
    | executor paid | verifier _ paid =>
      obtain ⟨bank, -, rfl⟩ := Option.map_eq_some_iff.mp paid
      exact ih

/-! ## a settled entry -/

open FunaiChain.World (JailedOnly Jails)

theorem State.jailWorker_eq_ok (h : s.jailWorker env ctx a = .ok s') :
    ∃ w, s.world.jailWorker env.toHost ctx.height a = .ok w ∧ s' = { s with world := w } := by
  obtain ⟨w, hw, h⟩ := bind_eq_ok.mp h
  exact ⟨w, hw, (Except.ok.inj h).symm⟩

/-- The bookkeeping after a success may lower a jail count and jails nobody. -/
theorem jailedOnly_creditWorker :
    OnValue (fun s' => JailedOnly [] s.world s'.world) (creditWorker ctx s entry a fee) := by
  have hstreak := World.jailedOnly_incrementSuccessStreak s.world a
  have hworld : ∀ s₁ : State, (if 50 ≤ s₁.world.getSuccessStreak a then
      s₁.resetDishonestCount a else s₁).world = s₁.world := by
    intro s₁
    split <;> rfl
  refine .after fun w hstats => .ok ?_
  rw [hworld] at hstats
  have hcredit := hstreak.trans (World.jailedOnly_updateWorkerStats.get hstats)
  have hreputation := hcredit.trans (World.jailedOnly_reputationOnAccept w a)
  dsimp only
  split
  · exact hreputation.trans (World.jailedOnly_updateAvgLatency _ a _)
  · exact hreputation

theorem settleSuccess_jailedOnly : OnValue (fun r => ∀ p ∈ r, JailedOnly [] s.world p.1.world)
    (settleSuccess env ctx s entry u a ia fee) := by
  refine .after fun _ _ => .after fun balance _ => ?_
  refine payOutSuccess_payouts.bind_result (fun _ => .none) fun r hr => ?_
  refine jailedOnly_creditWorker.bind fun s₂ hcredited => .after fun _ _ => ?_
  exact .some ((JailedOnly.of_workers hr.workers_eq).trans hcredited)

theorem payFailPerToken_workers {failCoin : Coin} :
    OnValue (fun s' => s'.world.workers = s.world.workers)
    (payFailPerToken env ctx s entry u ia failCoin) := by
  refine .after fun _ _ => .either (.after fun _ _ => ?_) <| .ok rfl
  exact distributeFailFee_payouts.bind_result (fun _ => .ok rfl) fun r hr => .ok hr.workers_eq

theorem settleFailPerToken_jails :
    OnValue (fun s' => Jails env.toHost ctx.height a s.world s'.world)
    (settleFailPerToken env ctx s entry u a ia fee) := by
  refine .after fun _ _ => .after fun _ _ => payFailPerToken_workers.bind fun s₁ hs₁ => ?_
  exact .after fun w hjail => .ok ⟨s₁.world, hs₁, hjail⟩

theorem settleFail_jails {short : Coin → Bool} {task : TaskId} {rows : List VerifierResult}
    {record : Coin → SettledTaskID} :
    OnValue (fun r => ∀ s' ∈ r, (∃ failFee, MathInt.share fee.amount
    s.params.failSettlementFeeRatio 1000 = .ok failFee ∧ 0 ≤ failFee) ∧
    Jails env.toHost ctx.height a s.world s'.world)
    (settleFail env short ctx s task rows record u a ia fee) := by
  refine .after fun amount hshare => .after fun failFee hcoin => .after fun _ _ =>
    .after fun _ _ => ?_
  obtain ⟨-, hnn, -⟩ := Coin.new_eq_ok.mp hcoin
  refine payOutFail_payouts.bind_result (fun _ => .none) fun r hr => .after fun s₂ hjail => ?_
  obtain ⟨w, hw, rfl⟩ := jailWorker_eq_ok hjail
  exact .some ⟨⟨amount, hshare, hnn⟩, r.1.world, hr.workers_eq, hw⟩

/-- Does the token count of an entry get its worker jailed? -/
def dishonestJail (s : State) (entry : SettlementEntry) (workerAddr : Addr) : Bool :=
  entry.isPerToken && s.params.perTokenBillingEnabled &&
    (resolveTokenCounts entry s.params.tokenCountTolerance
      s.params.tokenCountTolerancePct).workerDishonest &&
    s.params.dishonestJailThreshold ≤ s.getDishonestCount workerAddr + 1

theorem trackTokens_jails :
    OnValue (fun s' => if dishonestJail s entry a then
        Jails env.toHost ctx.height a s.world s'.world else s'.world = s.world)
      (trackTokens env ctx s entry a) := by
  unfold dishonestJail
  refine .ite (fun hbilled => ?_) fun hbilled => .ok (by simp [hbilled])
  rw [hbilled, Bool.true_and]
  refine OnValue.bind (.ite (fun hdishonest => ?_) fun hdishonest => .ok ?_) fun s₁ hs₁ => .ok hs₁
  · rw [hdishonest, Bool.true_and]
    refine .ite (fun hthreshold => .after fun s₁ hjail => .ok ?_) fun hthreshold => .ok ?_
    · obtain ⟨w, hw, rfl⟩ := jailWorker_eq_ok hjail
      exact (if_pos (decide_eq_true hthreshold)).mpr ⟨s.world, rfl, hw⟩
    · exact (if_neg (mt of_decide_eq_true hthreshold)).mpr rfl
  · simp [hdishonest]

theorem world_countVerifiers (s : State) (entry : SettlementEntry) :
    (countVerifiers env s entry).world = s.world := by
  obtain ⟨_, h⟩ := @countVerifiers_frame env s entry
  rw [h]

theorem settleDirect_jails : OnValue (fun acc' => JailedOnly [] s.world acc'.state.world ∨
    entry.status ≠ .success ∧ Jails env.toHost ctx.height a s.world acc'.state.world)
    (settleDirect env ctx acc s entry u a fee) := by
  unfold settleDirect
  split
  · exact .error
  next ia _ =>
  refine .ite (fun _ => ?_) fun hstatus => .either ?_ ?_
  · refine settleSuccess_jailedOnly.bind_option (.ok (.inl (.refl _))) fun r hr => ?_
    exact .after fun _ _ => .ok (.inl hr)
  · refine settleFailPerToken_jails.bind fun s₁ hs₁ => ?_
    exact .after fun _ _ => .ok (.inr ⟨hstatus, hs₁⟩)
  · refine settleFail_jails.bind_option (.ok (.inl (.refl _))) fun s₁ ⟨_, hs₁⟩ => ?_
    exact .after fun _ _ => .ok (.inr ⟨hstatus, hs₁⟩)

/-- A per-token fail always jails. -/
theorem settleDirect_jails_of_fail (hstatus : entry.status ≠ .success)
    (hper : entry.isPerToken = true) :
    OnValue (fun acc' => Jails env.toHost ctx.height a s.world acc'.state.world)
    (settleDirect env ctx acc s entry u a fee) := by
  unfold settleDirect
  split
  · exact .error
  next ia _ =>
  rw [if_neg hstatus, if_pos hper]
  exact settleFailPerToken_jails.bind fun s₁ hs₁ => .after fun _ _ => .ok hs₁

/-- The entries whose worker is jailed for the token count and once more for the
fail, and can be jailed twice. -/
structure JailedTwice (env : Env) (ctx : Ctx) (s : State) (entry : SettlementEntry) : Prop where
  failed : entry.status ≠ .success
  unaudited : ∀ rate, auditRate s entry = .ok rate →
    forceSecondVerification s.params entry = false ∧
      shouldTriggerSecondVerification env ctx entry.taskId rate = false
  worker : ∃ userAddr workerAddr,
    admitEntry env ctx.height s.ledger entry = some (userAddr, workerAddr) ∧
    dishonestJail s entry workerAddr = true ∧ s.world.Vulnerable workerAddr

theorem dishonestJail_countVerifiers (s : State) (entry : SettlementEntry) (a : Addr) :
    dishonestJail (countVerifiers env s entry) entry a = dishonestJail s entry a := by
  obtain ⟨_, h⟩ := @countVerifiers_frame env s entry
  rw [h]
  rfl

/-- **A settled entry** jails no account twice, exactly when it is not one of
those. -/
theorem settleEntry_oneJail (h : settleEntry env ctx acc entry = .ok acc') :
    acc.state.world.OneJail acc'.state.world ↔ ¬ JailedTwice env ctx acc.state entry := by
  unfold settleEntry at h
  split at h
  · next hadm =>
    cases h
    refine iff_of_true (World.JailedOnly.refl _ |>.oneJail List.nodup_nil) fun htwice => ?_
    obtain ⟨u, a, hadm', -⟩ := htwice.worker
    rw [hadm] at hadm'
    contradiction
  next u a hadm =>
  obtain ⟨rate, hrate, h⟩ := bind_eq_ok.mp h
  split at h
  · next hdrawn =>
    cases h
    refine iff_of_true (World.JailedOnly.refl _ |>.oneJail List.nodup_nil) fun htwice => ?_
    obtain ⟨hforce, hdraw⟩ := htwice.unaudited rate hrate
    rw [hforce, hdraw] at hdrawn
    contradiction
  next hdrawn =>
  obtain ⟨s₁, htrack, h⟩ := bind_eq_ok.mp h
  obtain ⟨fee, -, h⟩ := bind_eq_ok.mp h
  obtain ⟨⟨l, r⟩, -, h⟩ := bind_eq_ok.mp h
  have htrack := trackTokens_jails.get htrack
  rw [dishonestJail_countVerifiers, world_countVerifiers] at htrack
  split at htrack
  · next hdishonest =>
    by_cases hstatus : entry.status = .success
    · -- the fee of a success: at most the jailing for the token count
      refine iff_of_true ?_ fun htwice => htwice.failed hstatus
      obtain hnone | ⟨hfail, -⟩ := settleDirect_jails.get h
      · exact (htrack.jailedOnly.trans hnone).oneJail (by simp)
      · exact absurd hstatus hfail
    · have hper : entry.isPerToken = true := by
        simp only [dishonestJail, Bool.and_eq_true] at hdishonest
        exact hdishonest.1.1.1
      have hfail := (settleDirect_jails_of_fail hstatus hper).get h
      rw [World.oneJail_iff_of_jails htrack hfail, not_iff_not]
      constructor
      · intro hvulnerable
        refine ⟨hstatus, fun rate' hrate' => ?_, u, a, hadm, hdishonest, hvulnerable⟩
        rw [hrate] at hrate'
        cases hrate'
        simpa using hdrawn
      · intro htwice
        obtain ⟨u', a', hadm', -, hvulnerable⟩ := htwice.worker
        rw [hadm] at hadm'
        cases hadm'
        exact hvulnerable
  · next hhonest =>
    refine iff_of_true ?_ fun htwice => ?_
    · have hworld : s₁.world = acc.state.world := htrack
      obtain hnone | ⟨-, hjail⟩ := settleDirect_jails.get h
      · rw [← hworld]
        exact hnone.oneJail List.nodup_nil
      · rw [← hworld]
        exact hjail.jailedOnly.oneJail (List.nodup_singleton a)
    · obtain ⟨u', a', hadm', hdishonest, -⟩ := htwice.worker
      rw [hadm] at hadm'
      cases hadm'
      exact hhonest hdishonest

/-! ## an audited task -/

theorem settleAuditedSuccess_jailedOnly :
    OnValue (fun r => ∀ s' ∈ r, JailedOnly [] s.world s'.world)
    (settleAuditedSuccess env ctx s apt u a ia baseFee alreadyPaidFail) := by
  refine .after fun _ _ => .after fun _ _ => .after fun _ _ => .after fun _ _ => ?_
  refine payOutSuccess_payouts.bind_result (fun _ => .none) fun r hr => .after fun w hstats => ?_
  have hstreak := World.jailedOnly_incrementSuccessStreak r.1.world a
  exact .some (((JailedOnly.of_workers hr.workers_eq).trans hstreak).trans
    (World.jailedOnly_updateWorkerStats.get hstats))

/-- **The settlement of an audited task** jails nobody, or as a fail its
worker. -/
theorem settleAuditedTask_jails : OnValue (fun r => JailedOnly [] s.world r.1.world ∨
    asSuccess = false ∧ (env.accAddressFromBech32 apt.userAddress).isSome ∧
    (∃ fee failFee, auditedFee apt overrideOutputTokens = .ok fee ∧
    MathInt.share fee.amount s.params.failSettlementFeeRatio 1000 = .ok failFee ∧
    0 ≤ failFee) ∧ ∃ a, env.accAddressFromBech32 apt.workerAddress = some a ∧
    Jails env.toHost ctx.height a s.world r.1.world)
    (settleAuditedTask env ctx s apt asSuccess alreadyPaidFail overrideOutputTokens) := by
  refine settleAuditedTask_rule (fun _ => .inl (.refl _)) (fun _ _ => .inl (.refl _))
    (fun _ _ _ _ => .inl (.of_workers rfl)) fun _ u a ia fee huser hworker _ hfee => ?_
  cases asSuccess with
  | true => exact settleAuditedSuccess_jailedOnly.mono fun o ho s' hs' => .inl (ho s' hs')
  | false =>
    refine settleFail_jails.mono fun o ho s' hs' => ?_
    obtain ⟨⟨failFee, hshare, hnn⟩, hjails⟩ := ho s' hs'
    exact .inr ⟨rfl, by rw [huser]; rfl, ⟨fee, failFee, hfee, hshare, hnn⟩, a, hworker, hjails⟩

/-- **A timed-out task** jails no account twice. -/
theorem timeoutTurn_oneJail {third : Bool} {turn : SecondVerificationPendingTask × HeightKey} :
    OnValue (fun s' => s.world.OneJail s'.world) (timeoutTurn env ctx third s turn) := by
  refine settleAuditedTask_jails.bind fun r hr => .ok ?_
  have hworld : ∀ f : Ledger → Ledger, ((if r.2 then r.1 else r.1.mapLedger
      (·.setSettledTask (auditRecordOf ctx.height turn.1 .failed Coin.zero))).mapLedger f).world =
      r.1.world := by
    intro f
    split <;> rfl
  rw [hworld]
  obtain hnone | ⟨-, -, -, a, -, hjail⟩ := hr
  · exact hnone.oneJail List.nodup_nil
  · exact hjail.jailedOnly.oneJail (List.nodup_singleton a)

/-! ## an audit judgment -/

/-- The accounts behind a list of addresses. -/
def accounts (env : Env) (addresses : List String) : List Addr :=
  addresses.filterMap env.accAddressFromBech32

theorem accounts_cons (address : String) (addresses : List String) :
    accounts env (address :: addresses) = accounts env [address] ++ accounts env addresses := by
  rw [accounts, ← List.singleton_append, List.filterMap_append]
  rfl

theorem accounts_singleton {address : String} (h : env.accAddressFromBech32 address = some a) :
    accounts env [address] = [a] := by
  rw [accounts, List.filterMap_cons_some h]
  rfl

/-- The addresses whose vote passes a test. -/
def votersWith (addresses : List String) (votes : List Bool) (wrong : Option Bool → Bool) :
    List String :=
  (addresses.zipIdx.filter fun p => wrong votes[p.2]?).map Prod.fst

namespace SecondVerificationPendingTask

variable (apt)

/-- Whom a token fraud blames: the worker and the verifiers that voted PASS. -/
def colluders : List String :=
  apt.workerAddress :: votersWith apt.verifierAddresses apt.verifierVotes (· == some true)

/-- Whom a failed audit of a success blames: the worker and every verifier that
is not recorded with FAIL. -/
def approvers : List String :=
  apt.workerAddress :: votersWith apt.verifierAddresses apt.verifierVotes (· != some false)

/-- Whom a passed audit of a fail blames: every verifier that is not recorded
with PASS. -/
def rejecters : List String :=
  votersWith apt.verifierAddresses apt.verifierVotes (· != some true)

variable {apt}

end SecondVerificationPendingTask

/-- Jail the accounts of a list, one after the other. -/
def State.jailAll (env : Env) (ctx : Ctx) (s : State) (L : List Addr) : Exec State := do
  let w ← s.world.jailAll env.toHost ctx.height L
  return { s with world := w }

theorem State.jailAll_cons :
    s.jailAll env ctx (a :: L) = (s.jailWorker env ctx a >>= fun s => s.jailAll env ctx L) := by
  unfold jailAll jailWorker
  rw [World.jailAll_cons]
  cases s.world.jailWorker env.toHost ctx.height a <;> rfl

theorem State.jailAll_append {L' : List Addr} :
    s.jailAll env ctx (L ++ L') = (s.jailAll env ctx L >>= fun s => s.jailAll env ctx L') := by
  unfold jailAll
  rw [World.jailAll_append]
  cases s.world.jailAll env.toHost ctx.height L <;> rfl

theorem State.jailWorkerAt_eq {address : String} :
    s.jailWorkerAt env ctx address = s.jailAll env ctx (accounts env [address]) := by
  unfold jailWorkerAt
  split
  · next hnone =>
    rw [accounts, List.filterMap_cons_none hnone]
    rfl
  · next a hsome =>
    rw [accounts, List.filterMap_cons_some hsome, jailAll_cons]
    cases s.jailWorker env ctx a <;> rfl

/-- **The loops over voters** jail the accounts of those who pass the test. -/
theorem jailVoters_eq {addresses : List String} {votes : List Bool} {wrong : Option Bool → Bool} :
    jailVoters env ctx s addresses votes wrong =
    s.jailAll env ctx (accounts env (votersWith addresses votes wrong)) := by
  unfold jailVoters votersWith
  induction addresses.zipIdx generalizing s with
  | nil => rfl
  | cons p _ ih =>
    obtain ⟨address, i⟩ := p
    rw [List.foldlM_cons]
    dsimp only
    cases hwrong : wrong votes[i]? with
    | false => simp_all
    | true =>
      rw [List.filter_cons_of_pos (by simpa using hwrong), List.map_cons, accounts_cons,
        jailAll_append, if_pos rfl, jailWorkerAt_eq]
      exact bind_congr fun s => ih

theorem jailWorkerAndVerifiers_eq :
    jailWorkerAndVerifiers env ctx s apt = s.jailAll env ctx (accounts env apt.approvers) := by
  rw [approvers, accounts_cons, jailAll_append, jailWorkerAndVerifiers, jailWorkerAt_eq]
  exact bind_congr fun s => jailVoters_eq

theorem State.jailAll_spec :
    OnValue (fun s' => JailedOnly L s.world s'.world ∧ s' = { s with world := s'.world })
      (s.jailAll env ctx L) :=
  .after fun _ hw => .ok ⟨World.jailedOnly_jailAll.get hw, rfl⟩

/-- A task whose fee can be computed and whose addresses decode: after a token
fraud it is settled as a fail. -/
structure Resettled (env : Env) (apt : SecondVerificationPendingTask) : Prop where
  user : (env.accAddressFromBech32 apt.userAddress).isSome
  worker : (env.accAddressFromBech32 apt.workerAddress).isSome
  maxFee : 0 ≤ apt.maxFee.amount ∧ apt.maxFee.amount < 2 ^ 64

/-- The judgments that name no account twice: after a token fraud the worker and
the verifiers that voted PASS are different accounts and the task is not
settled again; otherwise those whom the audit overturned are different
accounts. -/
def JudgedOnce (env : Env) (params : Params) (ar : SecondVerificationRecord)
    (apt : SecondVerificationPendingTask) : Prop :=
  match tokenFraud params ar apt with
  | some _ =>
      ¬ Resettled env apt ∧ (accounts env apt.colluders).Nodup
  | none =>
      (apt.originalStatus = .success → auditPasses params ar.results = false →
        (accounts env apt.approvers).Nodup) ∧
      (apt.originalStatus = .fail → auditPasses params ar.results = true →
        (accounts env apt.rejecters).Nodup)

theorem tokenFraud_spec {params : Params} (h : tokenFraud params ar apt = some median) :
    auditPasses params ar.results = true ∧ 0 < apt.feePerOutputToken := by
  unfold tokenFraud at h
  dsimp only at h
  split at h
  · grind
  · contradiction

/-- The fee per token needs a cap that fits. -/
theorem maxFee_of_auditedFee (hper : 0 < apt.feePerOutputToken)
    (h : auditedFee apt median = .ok fee) : 0 ≤ apt.maxFee.amount ∧ apt.maxFee.amount < 2 ^ 64 := by
  unfold auditedFee at h
  rw [if_pos (by simp [hper])] at h
  obtain ⟨cap, hcap, -⟩ := bind_eq_ok.mp h
  obtain ⟨hnn, hlt, -⟩ := MathInt.uint64_eq_ok.mp hcap
  exact ⟨hnn, hlt⟩

theorem world_unfreezePending :
    OnValue (fun s' => s'.world = s.world) (unfreezePending env s apt) := by
  unfold unfreezePending
  split
  · exact .ok rfl
  · exact .after fun _ _ => .ok rfl

/-- The token-count branch jails the worker and the verifiers that voted PASS,
and the worker again when the task is settled. -/
theorem judgeTokenFraud_jails (hper : 0 < apt.feePerOutputToken) :
    OnValue (fun s' => JailedOnly (accounts env apt.colluders) s.world s'.world ∨
    Resettled env apt ∧ JailedOnly (accounts env apt.colluders ++ accounts env [apt.workerAddress])
    s.world s'.world) (judgeTokenFraud env ctx s apt median stats) := by
  unfold judgeTokenFraud
  simp only [jailWorkerAt_eq, jailVoters_eq]
  refine world_unfreezePending.bind fun s₁ hworld => jailAll_spec.bind fun s₂ hworker =>
    jailAll_spec.bind fun s₃ hvoters => settleAuditedTask_jails.bind fun r hr => .ok ?_
  have hjailed := hworker.1.trans hvoters.1
  rw [← accounts_cons, hworld] at hjailed
  obtain hnone | ⟨-, huser, ⟨fee, -, hfee, -⟩, a, ha, hjails⟩ := hr
  · have htotal := hjailed.trans hnone
    rw [List.append_nil] at htotal
    exact .inl htotal
  · refine .inr ⟨⟨huser, by rw [ha]; rfl, maxFee_of_auditedFee hper hfee⟩, ?_⟩
    rw [accounts_singleton ha]
    exact hjailed.trans hjails.jailedOnly

/-- Whom a second verification blames. -/
def SecondVerificationPendingTask.blamed (apt : SecondVerificationPendingTask) (auditPass : Bool) :
    List String :=
  match apt.originalStatus, auditPass with
  | .success, true => []
  | .success, false => apt.approvers
  | .fail, true => apt.rejecters
  | _, _ => [apt.workerAddress]

theorem settleAuditedTask_jailedOnly :
    OnValue (fun r => JailedOnly (accounts env (if asSuccess then [] else [apt.workerAddress]))
        s.world r.1.world)
      (settleAuditedTask env ctx s apt asSuccess alreadyPaidFail overrideOutputTokens) := by
  refine settleAuditedTask_jails.mono fun r hr => ?_
  obtain hnone | ⟨rfl, -, -, a, ha, hjails⟩ := hr
  · exact hnone.mono fun a => by simp
  · rw [if_neg Bool.false_ne_true, accounts_singleton ha]
    exact hjails.jailedOnly

/-- **The four cases of a second verification** jail whom they blame. -/
theorem judgeSecond_jailedOnly :
    OnValue (fun r => JailedOnly (accounts env (apt.blamed auditPass)) s.world r.1.world)
    (judgeSecond env ctx s apt auditPass stats) := by
  unfold blamed
  refine .ite (fun hcase => ?_) fun hpassed => .ite (fun hcase => ?_) fun hoverturned =>
    .ite (fun hcase => ?_) fun hvindicated => ?_
  · simp only [Bool.and_eq_true, decide_eq_true_eq] at hcase
    rw [hcase.1, hcase.2]
    exact settleAuditedTask_jailedOnly.bind fun r hr => .ok hr
  · simp only [Bool.and_eq_true, decide_eq_true_eq, Bool.not_eq_true'] at hcase
    rw [hcase.1, hcase.2, jailWorkerAndVerifiers_eq]
    exact jailAll_spec.bind fun s₁ hjail => .ok hjail.1
  · simp only [Bool.and_eq_true, decide_eq_true_eq] at hcase
    rw [hcase.1, hcase.2]
    simp only [jailFailVerifiers, jailVoters_eq]
    exact settleAuditedTask_jailedOnly.bind fun r hr =>
      jailAll_spec.bind fun s₁ hjail => .ok (hr.trans hjail.1)
  · refine settleAuditedTask_jailedOnly.bind fun r hr => .ok ?_
    cases hstatus : apt.originalStatus <;> cases auditPass <;> simp_all

theorem nodup_blamed (hoverturned : apt.originalStatus = .success → auditPass = false →
    (accounts env apt.approvers).Nodup)
    (hvindicated : apt.originalStatus = .fail → auditPass = true →
    (accounts env apt.rejecters).Nodup) : (accounts env (apt.blamed auditPass)).Nodup := by
  have hsingle : (accounts env [apt.workerAddress]).Nodup := by
    unfold accounts
    cases hworker : env.accAddressFromBech32 apt.workerAddress with
    | none | some => simp [hworker]
  unfold blamed
  split
  · exact List.nodup_nil
  · next hstatus => exact hoverturned hstatus rfl
  · next hstatus => exact hvindicated hstatus rfl
  · exact hsingle

theorem world_closeJudgment (third : Bool) (t : TaskId) (r : State × EpochStats × Bool) :
    (closeJudgment third t r).world = r.1.world := by
  unfold closeJudgment
  split <;> rfl

/-- **An audit judgment** that names no account twice jails none twice. -/
theorem processAuditJudgment_oneJail
    (hpending : s.ledger.getSecondVerificationPending ar.taskId = some apt)
    (honce : JudgedOnce env s.params ar apt) :
    OnValue (fun s' => s.world.OneJail s'.world) (processAuditJudgment env ctx s ar) := by
  have hget : s.ledger.pendingAt false ar.taskId = some apt := hpending
  have hsecond : apt.isThirdVerification = false := (Ledger.pending_of_get hget).2
  unfold processAuditJudgment
  simp only [hpending, hsecond, Bool.not_false, if_true]
  refine .either (.ok ((JailedOnly.of_workers rfl).oneJail List.nodup_nil)) ?_
  unfold JudgedOnce at honce
  cases hfraud : tokenFraud s.params ar apt with
  | some median =>
    rw [hfraud] at honce
    refine (judgeTokenFraud_jails (tokenFraud_spec hfraud).2).mono fun s' hs' => ?_
    obtain hjailed | ⟨hresettled, -⟩ := hs'
    · exact hjailed.oneJail honce.2
    · exact absurd hresettled honce.1
  | none =>
    rw [hfraud] at honce
    refine judgeSecond_jailedOnly.bind fun r hr => .ok ?_
    rw [world_closeJudgment]
    exact hr.oneJail (nodup_blamed honce.1 honce.2)

end FunaiChain.Settlement
