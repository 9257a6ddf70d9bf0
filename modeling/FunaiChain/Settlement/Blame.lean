import FunaiChain.Settlement.Endings
import FunaiChain.Settlement.Penalties

/-!
# FunaiChain.Settlement.Blame

Whether an audit punishes only those who were wrong.  `Wrong` says who was,
given the final verdict and the votes recorded when the task was sent to
audit: the executor when the verdict is FAIL, and every verifier with a
recorded vote against it; in third verification also the second verifiers
that the verdict overturned.

A second verification keeps to that, except for an entry whose status is
neither success nor fail.  A third verification does not: the entry it
judges has lost the recorded votes (`thirdPendingOf`), so it jails every
verifier, and it settles a task by its original status even when the verdict
is PASS.
-/

namespace FunaiChain.Settlement

open SecondVerificationPendingTask

variable {env : Env} {wrong : Option Bool → Bool}

variable {s s' : State} {addresses : List String} {a u w : Addr} {votes : List Bool} {x : String}
  {auditPass settled verdict : Bool} {apt : SecondVerificationPendingTask} {height : Int}
  {L : List Addr} {w' : World}

/-! ## who was wrong -/

/-- An account behind a vote against a verdict. -/
def VotedAgainst (env : Env) (addresses : List String) (votes : List Bool) (verdict : Bool)
    (a : Addr) : Prop :=
  ∃ p ∈ addresses.zip votes, p.2 ≠ verdict ∧ env.accAddressFromBech32 p.1 = some a

/-- The executor of a task that failed, and the verifiers that voted against the
verdict. -/
def Wrong (env : Env) (apt : SecondVerificationPendingTask) (verdict : Bool) (a : Addr) : Prop :=
  verdict = false ∧ env.accAddressFromBech32 apt.workerAddress = some a ∨
    VotedAgainst env apt.verifierAddresses apt.verifierVotes verdict a

/-- The second verifiers whom a third verification overturned. -/
def Overturned (env : Env) (params : Params) (ar : SecondVerificationRecord) (verdict : Bool)
    (a : Addr) : Prop :=
  auditPasses params ar.results ≠ verdict ∧
    VotedAgainst env ar.secondVerifierAddresses ar.results verdict a

/-- The verdict of a second verification: a token fraud is a FAIL. -/
def secondVerdict (params : Params) (ar : SecondVerificationRecord)
    (apt : SecondVerificationPendingTask) : Bool :=
  auditPasses params ar.results && (tokenFraud params ar apt).isNone

theorem mem_accounts :
    a ∈ accounts env addresses ↔ ∃ x ∈ addresses, env.accAddressFromBech32 x = some a :=
  List.mem_filterMap

theorem mem_votersWith : x ∈ votersWith addresses votes wrong ↔
    ∃ i : Nat, addresses[i]? = some x ∧ wrong votes[i]? = true := by
  simp only [votersWith, List.mem_map, List.mem_filter, Prod.exists]
  grind

/-- A test of the votes that those against the verdict pass finds who voted against it. -/
theorem mem_accounts_votersWith
    (hwrong : ∀ i, i < addresses.length → (wrong votes[i]? = true ↔ votes[i]? = some !verdict)) :
    a ∈ accounts env (votersWith addresses votes wrong) ↔
    VotedAgainst env addresses votes verdict a := by
  simp only [mem_accounts, mem_votersWith, VotedAgainst]
  constructor
  · rintro ⟨x, ⟨i, hget, hvote⟩, ha⟩
    rw [hwrong i (List.getElem?_eq_some_iff.mp hget).1] at hvote
    refine ⟨(x, !verdict), ?_, by simp, ha⟩
    exact List.mem_iff_getElem?.mpr ⟨i, List.getElem?_zip_eq_some.mpr ⟨hget, hvote⟩⟩
  · rintro ⟨⟨x, v⟩, hmem, hne, ha⟩
    obtain ⟨i, hi⟩ := List.mem_iff_getElem?.mp hmem
    obtain ⟨hget, hvote⟩ := List.getElem?_zip_eq_some.mp hi
    rw [Bool.eq_not_of_ne hne] at hvote
    exact ⟨x, ⟨i, hget, (hwrong i (List.getElem?_eq_some_iff.mp hget).1).mpr hvote⟩, ha⟩

/-- Where every account has a vote, those who did not vote for the verdict voted
against it. -/
theorem mem_accounts_votersWith_ne (hlen : addresses.length = votes.length) :
    a ∈ accounts env (votersWith addresses votes (· != some verdict)) ↔
    VotedAgainst env addresses votes verdict a :=
  mem_accounts_votersWith fun i hi => by
    rw [List.getElem?_eq_getElem (hlen ▸ hi)]
    cases verdict <;> simp

/-- Likewise those who voted for the other verdict. -/
theorem mem_accounts_votersWith_eq :
    a ∈ accounts env (votersWith addresses votes (· == some !verdict)) ↔
    VotedAgainst env addresses votes verdict a :=
  mem_accounts_votersWith fun _ _ => beq_iff_eq

/-! ## whom a judgment blames -/

section Task

theorem mem_accounts_cons {xs : List String} :
    a ∈ accounts env (x :: xs) ↔ env.accAddressFromBech32 x = some a ∨ a ∈ accounts env xs := by
  simp [mem_accounts]

theorem wrong_of_colluders (h : a ∈ accounts env apt.colluders) : Wrong env apt false a := by
  rw [colluders, mem_accounts_cons] at h
  obtain hworker | hvoter := h
  · exact .inl ⟨rfl, hworker⟩
  · exact .inr (mem_accounts_votersWith_eq.mp hvoter)

variable (hlen : apt.verifierAddresses.length = apt.verifierVotes.length)
include hlen

theorem mem_approvers_iff : a ∈ accounts env apt.approvers ↔ Wrong env apt false a := by
  rw [approvers, mem_accounts_cons, mem_accounts_votersWith_ne hlen]
  simp [Wrong]

theorem mem_rejecters_iff : a ∈ accounts env apt.rejecters ↔ Wrong env apt true a := by
  rw [rejecters, mem_accounts_votersWith_ne hlen]
  simp [Wrong]

/-- **A second verification** blames only the wrong, when the status of the task
is one of the two. -/
theorem wrong_of_blamed
    (hstatus : apt.originalStatus = .success ∨ apt.originalStatus = .fail ∨ auditPass = false)
    (h : a ∈ accounts env (apt.blamed auditPass)) : Wrong env apt auditPass a := by
  have hworker : a ∈ accounts env [apt.workerAddress] → auditPass = false →
      Wrong env apt auditPass a := by
    intro hmem hfail
    obtain ⟨x, hx, ha⟩ := mem_accounts.mp hmem
    obtain rfl := List.mem_singleton.mp hx
    exact .inl ⟨hfail, ha⟩
  unfold blamed at h
  cases hcase : apt.originalStatus with
  | success =>
    rw [hcase] at h
    cases auditPass with
    | true => simp [accounts] at h
    | false => exact (mem_approvers_iff hlen).mp h
  | fail =>
    rw [hcase] at h
    cases auditPass with
    | true => exact (mem_rejecters_iff hlen).mp h
    | false => exact hworker h rfl
  | other => grind

end Task

/-- What a batch checked of a task that is audited. -/
structure Addressed (env : Env) (apt : SecondVerificationPendingTask)
    (userAddr workerAddr : Addr) : Prop where
  user : env.accAddressFromBech32 apt.userAddress = some userAddr
  worker : env.accAddressFromBech32 apt.workerAddress = some workerAddr
  denom : ∀ fee, auditedFee apt 0 = .ok fee → fee.denom = defaultDenom

/-- A task that a batch sent to audit, with a vote for each verifier. -/
structure SentToAudit (env : Env) (apt : SecondVerificationPendingTask)
    (userAddr workerAddr : Addr) : Prop extends Addressed env apt userAddr workerAddr where
  votes : apt.verifierAddresses.length = apt.verifierVotes.length
  second : apt.isThirdVerification = false

/-- The second tier hands the addresses and the prices on, and no votes. -/
theorem Addressed.third (h : Addressed env apt u w) (height : Int) :
    Addressed env (thirdPendingOf height apt) u w :=
  ⟨h.user, h.worker, h.denom⟩

theorem sentToAudit_pendingOf {l : Ledger} {entry : SettlementEntry}
    (h : admitEntry env height l entry = some (u, w)) :
    SentToAudit env (pendingOf height entry) u w where
  votes := by simp [pendingOf]
  user := (admitEntry_eq_some h).user
  worker := (admitEntry_eq_some h).worker
  denom := fun _ hfee =>
    (auditedFee_pendingOf hfee).elim (·.2) (· ▸ (admitEntry_eq_some h).denom)
  second := rfl

section Judged
variable {ctx : Ctx}

/-- A settlement spares everybody but the worker of a fail that has a price. -/
theorem settleAuditedTask_spares {asSuccess : Bool} (haudited : Addressed env apt u w)
    (hworker : asSuccess = false → FailPriced s.params apt 0 → a ≠ w) :
    OnValue (fun r => s.world.Spares r.1.world a)
    (settleAuditedTask env ctx s apt asSuccess false 0) := by
  refine settleAuditedTask_jails.mono fun r hr => ?_
  obtain hnone | ⟨hfail, -, ⟨fee, failFee, hfee, hshare, hnn⟩, b, hb, hjails⟩ := hr
  · exact hnone.spared a List.not_mem_nil
  · cases haudited.worker.symm.trans hb
    have hne := hworker hfail ⟨fee, failFee, hfee, haudited.denom fee hfee, hshare, hnn⟩
    exact hjails.jailedOnly.spared a (by simpa using hne)

/-- A worker with a clean record that was jailed was not spared. -/
theorem not_spares_loneWorld (hmem : a ∈ L) (hoff : w'.offences a = min 3 (L.count a)) :
    ¬ (loneWorld a).Spares w' a := by
  intro hspares
  obtain ⟨worker', hget', heased⟩ := hspares (loneWorker a) (get_loneWorld_self a)
  have hle := heased.offences_le
  have hzero : (loneWorker a).offences = 0 := rfl
  have hpos := List.count_pos_iff.mpr hmem
  rw [World.offences_of_get hget'] at hoff
  omega

/-! ## second verification -/

variable {params : Params} {ar : SecondVerificationRecord}

/-- **A second verification that is fair**: the status of the task is one of the
two, or the verdict is FAIL, or the worker was wrong as a verifier, or the
fail has no price. -/
def SecondFair (env : Env) (params : Params) (ar : SecondVerificationRecord)
    (apt : SecondVerificationPendingTask) (workerAddr : Addr) : Prop :=
  apt.originalStatus = .success ∨ apt.originalStatus = .fail ∨
    secondVerdict params ar apt = false ∨ Wrong env apt true workerAddr ∨
    ¬ FailPriced params apt 0

/-- A task of another status is settled as a fail. -/
theorem judgeSecond_other {stats : EpochStats} (hsuccess : apt.originalStatus ≠ .success)
    (hfail : apt.originalStatus ≠ .fail) :
    judgeSecond env ctx s apt auditPass stats = (do
      let (s, settled) ← settleAuditedTask env ctx s apt false false 0
      return (s, { stats with auditFail := stats.auditFail + 1 }, settled)) := by
  unfold judgeSecond
  simp [hsuccess, hfail]

theorem processAuditJudgment_spares (haudited : SentToAudit env apt u w)
    (hfair : SecondFair env s.params ar apt w)
    (hpending : s.ledger.getSecondVerificationPending ar.taskId = some apt)
    (ha : ¬ Wrong env apt (secondVerdict s.params ar apt) a) :
    OnValue (fun s' => s.world.Spares s'.world a) (processAuditJudgment env ctx s ar) := by
  unfold processAuditJudgment
  simp only [hpending, haudited.second, Bool.not_false, if_true]
  refine .either (.ok (.refl _ a)) ?_
  cases hfraud : tokenFraud s.params ar apt with
  | some median =>
    have hverdict : secondVerdict s.params ar apt = false := by simp [secondVerdict, hfraud]
    rw [hverdict] at ha
    have hcolluders : a ∉ accounts env apt.colluders := fun hmem => ha (wrong_of_colluders hmem)
    refine (judgeTokenFraud_jails (tokenFraud_spec hfraud).2).mono fun s' hs' => ?_
    obtain hjailed | ⟨-, hjailed⟩ := hs'
    · exact hjailed.spared a hcolluders
    · refine hjailed.spared a fun hmem => (List.mem_append.mp hmem).elim hcolluders fun hmem => ?_
      obtain ⟨x, hx, hdecode⟩ := mem_accounts.mp hmem
      obtain rfl := List.mem_singleton.mp hx
      exact ha (.inl ⟨rfl, hdecode⟩)
  | none =>
    have hverdict : secondVerdict s.params ar apt = auditPasses s.params ar.results := by
      simp [secondVerdict, hfraud]
    unfold SecondFair at hfair
    rw [hverdict] at ha hfair
    refine OnValue.bind (Q := fun r => s.world.Spares r.1.world a) ?_ fun r hr =>
      .ok (by rwa [world_closeJudgment])
    by_cases hstatus : apt.originalStatus = .success ∨ apt.originalStatus = .fail ∨
        auditPasses s.params ar.results = false
    · exact judgeSecond_jailedOnly.mono fun r hr =>
        hr.spared a fun hmem => ha (wrong_of_blamed haudited.votes hstatus hmem)
    · push Not at hstatus
      obtain ⟨hsuccess, hfail, hpass⟩ := hstatus
      rw [Bool.ne_false_iff] at hpass
      have hunpriced : FailPriced s.params apt 0 → a ≠ w := by grind
      rw [judgeSecond_other hsuccess hfail]
      exact (settleAuditedTask_spares haudited.toAddressed fun _ => hunpriced).bind
        fun r hr => .ok hr

/-- A ledger on which a user has an account and nothing in it. -/
def brokeLedger (u : Addr) : Ledger :=
  Ledger.empty.setInferenceAccount ⟨u, ⟨defaultDenom, 0⟩, Coin.zero⟩

/-- On a state over such a ledger a fail is settled and the worker jailed. -/
theorem settleAuditedTask_brokeLedger (haudited : Addressed env apt u w)
    (hmarks : s.ledger.fraudMarks = (brokeLedger u).fraudMarks)
    (hfrozen : s.ledger.frozenBalance = (brokeLedger u).frozenBalance)
    (haccounts : s.ledger.inferenceAccounts = (brokeLedger u).inferenceAccounts)
    (hprice : FailPriced s.params apt 0)
    (hjail : s.world.jailWorker env.toHost ctx.height w = .ok w') :
    ∃ s', settleAuditedTask env ctx s apt false false 0 = .ok (s', true) ∧ s'.world = w' := by
  have hmark : s.hasFraudMark apt.taskId = false := by
    rw [State.hasFraudMark, Ledger.hasFraudMark, hmarks, Table.has,
      show (brokeLedger u).fraudMarks.get apt.taskId = none from Table.get_empty _]
    rfl
  have hunfrozen : s.ledger.frozenBalance.get apt.taskId = none := by
    rw [hfrozen]
    exact Table.get_empty _
  have hia : s.getInferenceAccount u = some ⟨u, ⟨defaultDenom, 0⟩, Coin.zero⟩ := by
    rw [State.getInferenceAccount, Ledger.getInferenceAccount, haccounts]
    exact (Ledger.getInferenceAccount_set _ _ u).trans (if_pos rfl)
  exact settleAuditedTask_broke 0 hmark hunfrozen haudited.user haudited.worker hia rfl hprice hjail

theorem jailWorker_loneWorld (host : Host) (height : Int) (w : Addr) :
    ∃ w', (loneWorld w).jailWorker host height w = .ok w' ∧ ¬ (loneWorld w).Spares w' w := by
  obtain ⟨w', hall, hoff⟩ := jailAll_loneWorld host height w [w]
  rw [World.jailAll_singleton] at hall
  exact ⟨w', hall, not_spares_loneWorld (List.mem_singleton_self w) hoff⟩

/-- **Second verification**: in every state only the wrong are jailed, exactly
when it is fair. -/
theorem secondFair_iff (haudited : SentToAudit env apt u w) (hid : apt.taskId = ar.taskId) :
    (∀ s s', s.params = params → s.ledger.getSecondVerificationPending ar.taskId = some apt →
    processAuditJudgment env ctx s ar = .ok s' →
    ∀ a, ¬ Wrong env apt (secondVerdict params ar apt) a → s.world.Spares s'.world a) ↔
    SecondFair env params ar apt w := by
  constructor
  · intro hall
    by_contra hunfair
    unfold SecondFair at hunfair
    push Not at hunfair
    obtain ⟨hsuccess, hfail, hpassed, hright, hprice⟩ := hunfair
    rw [Bool.ne_false_iff] at hpassed
    have hfraud : tokenFraud params ar apt = none := by
      simp only [secondVerdict, Bool.and_eq_true, Option.isNone_iff_eq_none] at hpassed
      exact hpassed.2
    obtain ⟨w', hjail, hnot⟩ := jailWorker_loneWorld env.toHost ctx.height w
    let s := probe params (brokeLedger u) apt haudited.second (loneWorld w)
    have hsettle : ∃ s', settleAuditedTask env ctx s apt false false 0 = .ok (s', true) ∧
        s'.world = w' :=
      settleAuditedTask_brokeLedger haudited.toAddressed rfl rfl rfl hprice hjail
    obtain ⟨s₁, hsettle, hworld⟩ := hsettle
    have hjudge : processAuditJudgment env ctx s ar = .ok (closeJudgment false ar.taskId
        (s₁, { judgmentStats ctx s.book with
          auditFail := (judgmentStats ctx s.book).auditFail + 1 }, true)) := by
      rw [processAuditJudgment_probe hid, hfraud]
      rw [judgeSecond_other hsuccess hfail]
      rw [hsettle]
      rfl
    have hspares := hall s _ rfl (hid ▸ pending_probe) hjudge w (hpassed ▸ hright)
    rw [world_closeJudgment, hworld] at hspares
    exact hnot hspares
  · rintro hfair s s' rfl hpending hjudge a ha
    exact (processAuditJudgment_spares haudited hfair hpending ha).get hjudge

end Judged

/-! ## third verification -/

/-- The check of the votes never leaves the list. -/
theorem jailFailSecondVerifiers_eq {ctx : Ctx} {ar : SecondVerificationRecord}
    (hlen : ar.secondVerifierAddresses.length = ar.results.length) :
    jailFailSecondVerifiers env ctx s ar = s.jailAll env ctx
    (accounts env (votersWith ar.secondVerifierAddresses ar.results (· == some false))) := by
  rw [← jailVoters_eq]
  unfold jailFailSecondVerifiers jailVoters
  have hbound : ∀ p ∈ ar.secondVerifierAddresses.zipIdx, p.2 < ar.results.length := by grind
  revert hbound
  induction ar.secondVerifierAddresses.zipIdx generalizing s with
  | nil =>
    intro _
    rfl
  | cons p ps ih => grind

/-- **A third verification that is fair**, for the verdict of its votes.  With a
FAIL that overturns a PASS or a success, every listed verifier was wrong; with
a PASS, the task was a success, or its worker was wrong in another role, or the
fail has no price. -/
structure ThirdFair (env : Env) (params : Params) (ar : SecondVerificationRecord)
    (apt : SecondVerificationPendingTask) (workerAddr : Addr) (verdict : Bool) : Prop where
  failed : verdict = false → auditPasses params ar.results = true ∨ apt.originalStatus = .success →
    ∀ a ∈ accounts env apt.verifierAddresses,
      Wrong env apt false a ∨ Overturned env params ar false a
  passed : verdict = true → apt.originalStatus ≠ .success →
    Wrong env apt true workerAddr ∨ Overturned env params ar true workerAddr ∨
      ¬ FailPriced params apt 0

/-- The entry of the third tier has no votes, so all its verifiers count as
approvers. -/
theorem mem_approvers_third : a ∈ accounts env (thirdPendingOf height apt).approvers ↔
    env.accAddressFromBech32 apt.workerAddress = some a ∨
    a ∈ accounts env apt.verifierAddresses := by
  have hall : votersWith apt.verifierAddresses [] (· != some false) = apt.verifierAddresses := by
    have hkept : (apt.verifierAddresses.zipIdx.filter
        fun p => ([] : List Bool)[p.2]? != some false) = apt.verifierAddresses.zipIdx :=
      List.filter_eq_self.mpr fun p _ => by simp
    rw [votersWith, hkept]
    exact List.zipIdx_map_fst 0 _
  rw [approvers, mem_accounts_cons]
  change _ ∨ a ∈ accounts env (votersWith apt.verifierAddresses [] (· != some false)) ↔ _
  rw [hall]
  rfl

section Third
variable {ctx : Ctx} {ar : SecondVerificationRecord} {params : Params} {stats : EpochStats}

theorem jailAll_spares (ha : a ∉ L) :
    OnValue (fun s' => s.world.Spares s'.world a ∧ s'.params = s.params) (s.jailAll env ctx L) :=
  State.jailAll_spec.mono fun s' hs' => ⟨hs'.1.spared a ha, by rw [hs'.2]⟩

/-- A fair third verification jails only the wrong. -/
theorem judgeThird_spares (haudited : SentToAudit env apt u w)
    (hlen : ar.secondVerifierAddresses.length = ar.results.length)
    (hfair : ThirdFair env s.params ar apt w verdict) (hright : ¬ Wrong env apt verdict a)
    (hupheld : ¬ Overturned env s.params ar verdict a) :
    OnValue (fun r => s.world.Spares r.1.world a)
    (judgeThird env ctx s (thirdPendingOf height apt) verdict ar stats) := by
  -- whom the FAIL branches jail
  have happrovers : verdict = false →
      auditPasses s.params ar.results = true ∨ apt.originalStatus = .success →
      a ∉ accounts env (thirdPendingOf height apt).approvers := by
    rintro rfl hcase hmem
    obtain hworker | hverifier := mem_approvers_third.mp hmem
    · exact hright (.inl ⟨rfl, hworker⟩)
    · exact (hfair.failed rfl hcase a hverifier).elim hright hupheld
  -- whom a settlement by the original status jails
  have hsettled : ∀ {s₁ : State} {asSuccess : Bool}, s₁.params = s.params →
      (asSuccess = false → verdict = true → apt.originalStatus ≠ .success) →
      OnValue (fun r => s₁.world.Spares r.1.world a)
        (settleAuditedTask env ctx s₁ (thirdPendingOf height apt) asSuccess false 0) := by
    intro s₁ asSuccess hparams hstatus
    refine settleAuditedTask_spares (haudited.toAddressed.third height) fun hfail hprice => ?_
    rintro rfl
    rw [hparams] at hprice
    cases verdict with
    | false => exact hright (.inl ⟨rfl, haudited.worker⟩)
    | true =>
      obtain hwrong | hover | hnot := hfair.passed rfl (hstatus hfail rfl)
      · exact hright hwrong
      · exact hupheld hover
      · exact hnot ⟨hprice.price⟩
  unfold judgeThird
  simp only [jailSecondVerifiers, jailVoters_eq, jailWorkerAndVerifiers_eq,
    jailFailSecondVerifiers_eq hlen]
  refine .ite (fun hcase => ?_) fun _ => .ite (fun hcase => ?_) fun hsecond =>
    .ite (fun _ => ?_) fun horig => .ite (fun hstatus => ?_) fun _ => ?_
  · simp only [Bool.and_eq_true, Bool.not_eq_true'] at hcase
    obtain ⟨horig, rfl⟩ := hcase
    have hsecond : a ∉ accounts env
        (votersWith ar.secondVerifierAddresses ar.results (· != some false)) :=
      fun hmem => hupheld ⟨by simp [horig], (mem_accounts_votersWith_ne hlen).mp hmem⟩
    exact (jailAll_spares hsecond).bind fun s₁ h₁ =>
      (jailAll_spares (happrovers rfl (.inl horig))).bind fun s₂ h₂ => .ok (h₁.1.trans h₂.1)
  · simp only [Bool.and_eq_true, Bool.not_eq_true'] at hcase
    obtain ⟨horig, rfl⟩ := hcase
    have hsecond : a ∉ accounts env
        (votersWith ar.secondVerifierAddresses ar.results (· == some false)) :=
      fun hmem => hupheld ⟨by simp [horig], mem_accounts_votersWith_eq.mp hmem⟩
    exact (jailAll_spares hsecond).bind fun s₁ h₁ =>
      (hsettled h₁.2 fun hne _ => beq_eq_false_iff_ne.mp hne).bind fun r hr => .ok (h₁.1.trans hr)
  · exact (hsettled rfl fun hne _ => beq_eq_false_iff_ne.mp hne).bind fun r hr => .ok hr
  all_goals
    have hfail : verdict = false := by simpa [Bool.eq_false_iff.mpr horig] using hsecond
  · exact (jailAll_spares (happrovers hfail (.inr hstatus))).bind fun s₁ h₁ => .ok h₁.1
  · refine (hsettled rfl fun _ htrue => ?_).bind fun r hr => .ok hr
    rw [hfail] at htrue
    contradiction

/-- A state with a user who can pay nothing. -/
def brokeState (params : Params) (u : Addr) (world : World) : State where
  params := params
  ledger := brokeLedger u
  book := Book.empty
  world := world

theorem jailAll_brokeState {world world' : World}
    (h : world.jailAll env.toHost ctx.height L = .ok world') :
    (brokeState params u world).jailAll env ctx L = .ok (brokeState params u world') := by
  rw [State.jailAll, show (brokeState params u world).world = world from rfl, h]
  rfl

/-- A FAIL of the third tier jails every listed verifier. -/
theorem judgeThird_failed (u : Addr) (height : Int) (stats : EpochStats)
    (hcase : auditPasses params ar.results = true ∨ apt.originalStatus = .success)
    (ha : a ∈ accounts env apt.verifierAddresses) :
    ∃ s' stats' settled, judgeThird env ctx (brokeState params u (loneWorld a))
    (thirdPendingOf height apt) false ar stats = .ok (s', stats', settled) ∧
    ¬ (loneWorld a).Spares s'.world a := by
  have happrover : a ∈ accounts env (thirdPendingOf height apt).approvers :=
    mem_approvers_third.mpr (.inr ha)
  have hparams : (brokeState params u (loneWorld a)).params = params := rfl
  unfold judgeThird
  cases horig : auditPasses params ar.results with
  | true =>
    obtain ⟨w', hall, hoff⟩ := jailAll_loneWorld env.toHost ctx.height a (accounts env
      (votersWith ar.secondVerifierAddresses ar.results (· != some false)) ++
      accounts env (thirdPendingOf height apt).approvers)
    have hnot := not_spares_loneWorld (List.mem_append.mpr (.inr happrover)) hoff
    rw [World.jailAll_append] at hall
    obtain ⟨w₁, hseconds, hjail⟩ := bind_eq_ok.mp hall
    simp only [hparams, horig, Bool.not_false, Bool.and_true, if_true, jailSecondVerifiers,
      jailVoters_eq, jailAll_brokeState hseconds, jailWorkerAndVerifiers_eq,
      jailAll_brokeState hjail, ok_bind]
    exact ⟨_, _, _, rfl, hnot⟩
  | false =>
    have hstatus : (thirdPendingOf height apt).originalStatus = .success := by
      simpa [horig, thirdPendingOf] using hcase
    obtain ⟨w', hjail, hoff⟩ := jailAll_loneWorld env.toHost ctx.height a
      (accounts env (thirdPendingOf height apt).approvers)
    have hnot := not_spares_loneWorld happrover hoff
    simp only [hparams, horig, Bool.false_and, Bool.and_false, Bool.not_false,
      Bool.false_eq_true, if_false, hstatus, if_true, jailWorkerAndVerifiers_eq,
      jailAll_brokeState hjail, ok_bind]
    exact ⟨_, _, _, rfl, hnot⟩

/-- A PASS of the third tier jails the worker of a task that was no success. -/
theorem judgeThird_passed (haddressed : Addressed env apt u w)
    (hlen : ar.secondVerifierAddresses.length = ar.results.length)
    (hstatus : apt.originalStatus ≠ .success) (hprice : FailPriced params apt 0) :
    ∃ s' stats' settled, judgeThird env ctx (brokeState params u (loneWorld w))
    (thirdPendingOf height apt) true ar stats = .ok (s', stats', settled) ∧
    ¬ (loneWorld w).Spares s'.world w := by
  have hbeq : ((thirdPendingOf height apt).originalStatus == SettlementStatus.success) = false :=
    beq_eq_false_iff_ne.mpr hstatus
  have hparams : (brokeState params u (loneWorld w)).params = params := rfl
  obtain ⟨w', hall, hoff⟩ := jailAll_loneWorld env.toHost ctx.height w
    ((if auditPasses params ar.results then [] else accounts env
      (votersWith ar.secondVerifierAddresses ar.results (· == some false))) ++ [w])
  have hnot := not_spares_loneWorld (List.mem_append.mpr (.inr (List.mem_singleton_self w))) hoff
  rw [World.jailAll_append] at hall
  obtain ⟨w₁, hseconds, hlast⟩ := bind_eq_ok.mp hall
  rw [World.jailAll_singleton] at hlast
  obtain ⟨s', hsettle, rfl⟩ : ∃ s', settleAuditedTask env ctx (brokeState params u w₁)
      (thirdPendingOf height apt) false false 0 = .ok (s', true) ∧ s'.world = w' :=
    settleAuditedTask_brokeLedger (haddressed.third height) rfl rfl rfl ⟨hprice.price⟩ hlast
  unfold judgeThird
  cases horig : auditPasses params ar.results with
  | true =>
    rw [horig, if_pos rfl, World.jailAll_nil] at hseconds
    cases hseconds
    simp only [hparams, horig, Bool.not_true, Bool.and_false, Bool.false_and,
      Bool.false_eq_true, if_false, if_true, hbeq, hsettle, ok_bind]
    exact ⟨_, _, _, rfl, hnot⟩
  | false =>
    rw [horig, if_neg Bool.false_ne_true] at hseconds
    simp only [hparams, horig, Bool.not_true, Bool.and_false, Bool.not_false, Bool.true_and,
      Bool.false_eq_true, if_false, if_true, hbeq, jailFailSecondVerifiers_eq hlen,
      jailAll_brokeState hseconds, ok_bind, hsettle]
    exact ⟨_, _, _, rfl, hnot⟩

/-- **Third verification**: in every state only the wrong are jailed, exactly
when it is fair. -/
theorem thirdFair_iff (haudited : SentToAudit env apt u w)
    (hlen : ar.secondVerifierAddresses.length = ar.results.length) :
    (∀ s s' stats' settled, s.params = params →
    judgeThird env ctx s (thirdPendingOf height apt) verdict ar stats = .ok (s', stats', settled) →
    ∀ a, ¬ Wrong env apt verdict a → ¬ Overturned env params ar verdict a →
    s.world.Spares s'.world a) ↔ ThirdFair env params ar apt w verdict := by
  constructor
  · intro hall
    constructor
    · rintro rfl hcase a ha
      by_contra hnot
      push Not at hnot
      obtain ⟨s', stats', settled, hjudge, hjailed⟩ := judgeThird_failed u height stats hcase ha
      exact hjailed (hall _ s' stats' settled rfl hjudge a hnot.1 hnot.2)
    · rintro rfl hstatus
      by_contra hnot
      push Not at hnot
      obtain ⟨hright, hupheld, hprice⟩ := hnot
      obtain ⟨s', stats', settled, hjudge, hjailed⟩ :=
        judgeThird_passed haudited.toAddressed hlen hstatus hprice
      exact hjailed (hall _ s' stats' settled rfl hjudge w hright hupheld)
  · rintro hfair s s' stats' settled rfl hjudge a hright hupheld
    exact (judgeThird_spares haudited hlen hfair hright hupheld).get hjudge

end Third

/-! ## penalties hit only those who were wrong -/

/-- **Penalties hit only those who were wrong.**  Take an entry that a batch sends
to audit, a second-tier vote list on it, and a third-tier vote list judged on
the entry that the second tier stored.  In every state only the wrong are
jailed, exactly when the second verification is fair, and exactly when the
third is. -/
theorem penalties_hit_the_wrong (env : Env) (ctx : Ctx) (params : Params) (height : Int)
    (l : Ledger) (entry : SettlementEntry) (u w : Addr)
    (hadmitted : admitEntry env height l entry = some (u, w)) (ar : SecondVerificationRecord)
    (hid : ar.taskId = entry.taskId)
    (hlen : ar.secondVerifierAddresses.length = ar.results.length) : ((∀ s s', s.params = params →
        s.ledger.getSecondVerificationPending ar.taskId = some (pendingOf height entry) →
        processAuditJudgment env ctx s ar = .ok s' → ∀ a, ¬ Wrong env (pendingOf height entry)
            (secondVerdict params ar (pendingOf height entry)) a → s.world.Spares s'.world a) ↔
      SecondFair env params ar (pendingOf height entry) w) ∧
    ∀ (escalated : Int) (votes : List Bool) (stats : EpochStats),
      (∀ s s' stats' settled, s.params = params →
        judgeThird env ctx s (thirdPendingOf escalated (pendingOf height entry))
          (auditPasses params votes) ar stats = .ok (s', stats', settled) →
        ∀ a, ¬ Wrong env (pendingOf height entry) (auditPasses params votes) a →
          ¬ Overturned env params ar (auditPasses params votes) a → s.world.Spares s'.world a) ↔
      ThirdFair env params ar (pendingOf height entry) w (auditPasses params votes) := by
  have haudited := sentToAudit_pendingOf hadmitted
  exact ⟨secondFair_iff haudited hid.symm, fun _ _ _ => thirdFair_iff haudited hlen⟩

/-- A success that one verifier approved and another rejected, and the votes of a
second tier that rejects it. -/
def devDivided : SettlementEntry :=
  { devEntry [2] "user" 100 0 with
    verifierResults := [⟨"x", true, [], [], 0, 0⟩, ⟨"y", false, [], [], 0, 0⟩] }

def devRejections : SecondVerificationRecord :=
  { devVotes with results := [false, false, false] }

/-- The second tier may jail the worker and `x`, who were wrong, and spares `y`;
when the third tier passes the task, it spares `x` and may jail the second
verifier `a`. -/
theorem penalties_hit_the_wrong_devnet :
    (Wrong devEnv (pendingOf 1 devDivided) false (devAddr "worker") ∧
      Wrong devEnv (pendingOf 1 devDivided) false (devAddr "x") ∧
      ∀ s s', s.params = Params.default →
        s.ledger.getSecondVerificationPending [2] = some (pendingOf 1 devDivided) →
        processAuditJudgment devEnv ⟨1, [], []⟩ s devRejections = .ok s' →
        s.world.Spares s'.world (devAddr "y")) ∧
    (Overturned devEnv Params.default devRejections true (devAddr "a") ∧
      ∀ s s' stats' settled, s.params = Params.default →
        judgeThird devEnv ⟨1, [], []⟩ s (thirdPendingOf 1 (pendingOf 1 devDivided))
          (auditPasses Params.default [true, true]) devRejections (defaultEpochStats 0) =
          .ok (s', stats', settled) →
        s.world.Spares s'.world (devAddr "x")) := by
  obtain ⟨hsecond, hthird⟩ := penalties_hit_the_wrong devEnv ⟨1, [], []⟩ Params.default 1
    devAcc.state.ledger devDivided (devAddr "user") (devAddr "worker") (by decide +kernel)
    devRejections rfl rfl
  have hsecond := hsecond.mpr (.inl rfl)
  have hthird := (hthird 1 [true, true] (defaultEpochStats 0)).mpr
    ⟨fun hfail => absurd hfail (by decide), fun _ hstatus => absurd rfl hstatus⟩
  refine ⟨⟨.inl ⟨rfl, rfl⟩, .inr ?_, fun s s' hparams hpending hjudge => ?_⟩, ?_,
    fun s s' stats' settled hparams hjudge => ?_⟩
  · unfold VotedAgainst
    decide +kernel
  · refine hsecond s s' hparams hpending hjudge _ ?_
    unfold Wrong VotedAgainst
    decide +kernel
  · unfold Overturned VotedAgainst
    decide +kernel
  · refine hthird s s' stats' settled hparams hjudge _ ?_ ?_
    · unfold Wrong VotedAgainst
      decide +kernel
    · unfold Overturned VotedAgainst
      decide +kernel

/-- A success that one of its verifiers rejected. -/
def devRejected : SettlementEntry :=
  { devEntry [2] "user" 100 0 with verifierResults := [⟨"x", false, [], [], 0, 0⟩] }

/-- **The innocent are jailed** in three reachable states: a worker whose entry
has no known status, by votes that pass it; a verifier that voted FAIL, by a
FAIL of the third tier; and the worker of a failed task, by a PASS of the third
tier that overturns the second. -/
theorem innocent_jailed :
    (∃ c, Run devEnv (fun _ _ => True) (devnet Params.default [("user", 1000)]) c ∧
      auditPasses c.state.params [true, true, true] = true ∧
      c.state.world.offences (devAddr "worker") = 0 ∧ (deliver devEnv c.ctx c.state
        (.secondVerificationResult ⟨"c", [16], 0, true, [1], 0, 0⟩)).world.offences
        (devAddr "worker") = 1) ∧
    (∃ c, Run devEnv (fun _ _ => True) (devnet Params.default [("user", 1000)]) c ∧
      c.state.ledger.pendingAt true [2] = some (thirdPendingOf 2 (pendingOf 1 devRejected)) ∧
      c.state.ledger.getSecondVerificationRecord [2] = some { devVotes with processedAt := 2 } ∧
      (pendingOf 1 devRejected).verifierVotes = [false] ∧
      c.state.world.offences (devAddr "x") = 0 ∧
      ∃ r, judgeThird devEnv c.ctx c.state (thirdPendingOf 2 (pendingOf 1 devRejected))
          (auditPasses c.state.params [false, false, false]) { devVotes with processedAt := 2 }
          (defaultEpochStats 0) = .ok r ∧
        r.1.world.offences (devAddr "x") = 1) ∧
    ∃ c, Run devEnv (fun _ _ => True) (devnet Params.default [("user", 1000)]) c ∧
      c.state.ledger.pendingAt true [2] =
        some (thirdPendingOf 2 (pendingOf 1 (devFail [2] "user" 100 0))) ∧
      c.state.ledger.getSecondVerificationRecord [2] =
        some { devVotes with results := [false, false, false], processedAt := 2 } ∧
      c.state.world.offences (devAddr "worker") = 0 ∧
      ∃ r, judgeThird devEnv c.ctx c.state
          (thirdPendingOf 2 (pendingOf 1 (devFail [2] "user" 100 0)))
          (auditPasses c.state.params [true, true, true])
          { devVotes with results := [false, false, false], processedAt := 2 }
          (defaultEpochStats 0) = .ok r ∧
        r.1.world.offences (devAddr "worker") = 1 := by
  refine ⟨?_, ?_, ?_⟩
  · exact Run.exists_of_exec
      [devBatch [{ devEntry [16] "user" 100 5000 with status := .other 2 }],
        devVote "a" [16] true, devVote "b" [16] true] (by decide +kernel)
  · exact Run.exists_of_exec [devRegister ["x"], devBatch [devRejected], .endBlock ⟨2, [], []⟩,
      devVote "a" [2] true, devVote "b" [2] true, devVote "c" [2] true] (by decide +kernel)
  · exact Run.exists_of_exec [devBatch [devFail [2] "user" 100 0], .endBlock ⟨2, [], []⟩,
      devVote "a" [2] false, devVote "b" [2] false, devVote "c" [2] false] (by decide +kernel)

end FunaiChain.Settlement
