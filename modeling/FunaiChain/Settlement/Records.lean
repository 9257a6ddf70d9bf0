import FunaiChain.Settlement.Refinement

/-!
# FunaiChain.Settlement.Records

What the stores of a task say about it, in every reachable state.

* A record names a worker and a user whose addresses decode, and was written
  at a height the chain has reached (`SettledTaskID.Genuine`).
* A task that waits for an audit names a user with an account and a worker
  (`Ledger.Claimed`): accounts are opened and never closed.
* The record of a settled task is backed by a payment of the log, made at the
  height of the record: the recorded fee is what was paid, and all of it but
  the fund's part was handed on (`Ledger.Backed`).
-/

namespace FunaiChain.Settlement

open Ledger

variable {env : Env} {height : Int} {params : Params} {fees : Int → Int}
variable {asSuccess settled third : Bool} {lab : Label} {st : SettledTaskID} {c x : Int}
  {apt : SecondVerificationPendingTask} {P : Chain → Event → Prop} {c₀ : Chain} {a : Addr}
  {ia : InferenceAccount} {e : SettlementEntry} {ar : SecondVerificationRecord} {l l' : Ledger}
  {p : Payment}

/-! ## genuine records -/

/-- The addresses of a pending task decode. -/
structure SecondVerificationPendingTask.Decodes (env : Env)
    (apt : SecondVerificationPendingTask) : Prop where
  worker : (env.accAddressFromBech32 apt.workerAddress).isSome
  user : (env.accAddressFromBech32 apt.userAddress).isSome

/-- The addresses of a record decode, and it was written at a height up to the
current one. -/
structure SettledTaskID.Genuine (env : Env) (height : Int) (st : SettledTaskID) : Prop where
  worker : (env.accAddressFromBech32 st.workerAddress).isSome
  user : (env.accAddressFromBech32 st.userAddress).isSome
  positive : 0 < st.settledAt
  reached : st.settledAt ≤ height

theorem SettledTaskID.Genuine.mono {height' : Int} (h : st.Genuine env height)
    (hle : height ≤ height') : st.Genuine env height' :=
  ⟨h.worker, h.user, h.positive, h.reached.trans hle⟩

theorem genuine_recordOf {account : Addr → Bool} {v : TaskView} {u w : Addr} (hheight : 0 < height)
    (h : v.Open env height account e u w) (status : TaskStatus) (fee : Coin) :
    (recordOf height e status fee).Genuine env height :=
  ⟨Option.isSome_of_eq_some h.worker, Option.isSome_of_eq_some h.user, hheight, Int.le_refl _⟩

theorem genuine_auditRecordOf (hheight : 0 < height) (h : apt.Decodes env) (status : TaskStatus)
    (fee : Coin) : (auditRecordOf height apt status fee).Genuine env height :=
  ⟨h.worker, h.user, hheight, Int.le_refl _⟩

/-- The record of a task, if there is one, is genuine. -/
def TaskView.Recorded (env : Env) (height : Int) (v : TaskView) : Prop :=
  ∀ st, v.record = some st → st.Genuine env height

section Task
variable {account : Addr → Bool} {t : TaskId} {v v' : TaskView}

section
variable (hheight : 0 < height) (hapt : apt.Decodes env)
include hheight hapt

theorem TaskAudited.recorded (h : TaskAudited env height account apt v v' settled)
    (hv : v.Recorded env height) : v'.Recorded env height := by
  cases h with
  | marked | stuck | refused => exact hv
  | charged =>
    intro st hst
    cases hst
    exact genuine_auditRecordOf hheight hapt _ _

/-- A task that was failed by its audit has a genuine record. -/
theorem recorded_of_failed (h : v.record = some (auditRecordOf height apt .failed Coin.zero)) :
    v.Recorded env height := by
  intro st hst
  cases h.symm.trans hst
  exact genuine_auditRecordOf hheight hapt _ _

theorem TaskJudged.recorded (h : TaskJudged env height params account ar apt v v')
    (hv : v.Recorded env height) : v'.Recorded env height := by
  cases h with
  | escalated => exact hv
  | tokenFraud step => exact step.recorded hheight hapt (recorded_of_failed hheight hapt rfl)
  | overturned => exact recorded_of_failed hheight hapt rfl
  | settled step | retained step =>
    have hstep := step.recorded hheight hapt hv
    exact hstep

theorem TaskTimeout.recorded (h : TaskTimeout env height account third apt v v')
    (hv : v.Recorded env height) : v'.Recorded env height := by
  cases h with
  | settled step =>
    have hstep := step.recorded hheight hapt hv
    cases third <;> exact hstep
  | failed => cases third <;> exact recorded_of_failed hheight hapt rfl

theorem TaskTurns.recorded (h : TaskTurns env height account third apt v v')
    (hv : v.Recorded env height) : v'.Recorded env height := by
  induction h with
  | nil => exact hv
  | cons turn _ ih => exact ih (turn.recorded hheight hapt hv)

end

/-- A step writes genuine records only. -/
theorem TaskStep.recorded (h : TaskStep env height params account t v lab v') (hheight : 0 < height)
    (hpending : ∀ third apt, v.pending third = some apt → apt.Decodes env)
    (hv : v.Recorded env height) : v'.Recorded env height := by
  cases h with
  | idle | reserved | refused | voted => exact hv
  | parked _ _ _ _ is_open | unpaid _ _ _ _ is_open | charged _ _ _ _ is_open =>
    intro st hst
    cases hst
    exact genuine_recordOf hheight is_open _ _
  | judged _ _ apt pending _ step =>
    exact step.recorded hheight (hpending false apt pending) hv
  | fraud =>
    intro st hst
    obtain ⟨st₀, hst₀, rfl⟩ := Option.map_eq_some_iff.mp hst
    have hgenuine := hv st₀ hst₀
    unfold TaskView.revoke
    split
    · exact ⟨hgenuine.worker, hgenuine.user, hgenuine.positive, hgenuine.reached⟩
    · exact hgenuine
  | cleanup =>
    intro st hst
    exact hv st (Option.filter_eq_some_iff.mp hst).1
  | swept third apt pending turns => exact turns.recorded hheight (hpending third apt pending) hv

end Task

namespace Ledger

/-- All records are genuine, and the addresses of all pending tasks decode. -/
structure Genuine (env : Env) (height : Int) (l : Ledger) : Prop where
  record : ∀ t, (l.view t).Recorded env height
  pending : l.AllPending (·.Decodes env)

end Ledger

theorem LedgerStep.genuine (h : LedgerStep env height params fees l lab l' x c)
    (hheight : 0 < height) (hl : l.Genuine env height) : l'.Genuine env height where
  record := fun t => (h.task t).recorded hheight
    (fun third apt hapt => hl.pending third t apt (pending_view .. ▸ hapt)) (hl.record t)
  pending := by
    refine h.allPending (fun e _ u w adm => ?_) (fun apt hapt => ⟨hapt.worker, hapt.user⟩)
      hl.pending
    exact ⟨Option.isSome_of_eq_some adm.worker, Option.isSome_of_eq_some adm.user⟩

/-- **Records are genuine** in every state of a run. -/
theorem Run.genuine {c : Chain} (hgenesis : AtGenesis env c₀) (run : Run env P c₀ c) :
    0 < c.ctx.height ∧ c.state.ledger.Genuine env c.ctx.height := by
  refine run.preserves hgenesis (I := fun c => 0 < c.ctx.height ∧
    c.state.ledger.Genuine env c.ctx.height)
    ⟨hgenesis.height, ?_, hgenesis.initial.allPending _⟩ ?_
  · intro t st hst
    rw [hgenesis.initial.view] at hst
    contradiction
  · intro c ev c' x y _ hc _ hp
    have hsteps : c'.state.ledger.Genuine env c.ctx.height :=
      hp.steps.invariant hc.2 fun _ _ _ _ _ _ hl hstep => hstep.genuine hc.1 hl
    exact ⟨hc.1.trans_le hp.height_le,
      fun t st hst => (hsteps.record t st hst).mono hp.height_le, hsteps.pending⟩

/-! ## claimed tasks -/

section Accounts
variable {Fee : Int → Prop} {Rel : Addr → TaskId → Prop}

theorem Ledger.hasAccount_congr (h : l'.inferenceAccounts = l.inferenceAccounts) :
    l'.hasAccount = l.hasAccount := by
  funext a
  simp [hasAccount, getInferenceAccount, h]

theorem Ledger.hasAccount_debit (h : l.getInferenceAccount a = some ia) (y : Int) :
    (l.debit ia y).hasAccount = l.hasAccount := by
  have ha := hasAccount_of_get h
  exact hasAccount_set ha

theorem Ledger.hasAccount_freeze (h : l.getInferenceAccount a = some ia) (t : TaskId) (n : UInt64) :
    (l.freeze ia t n).hasAccount = l.hasAccount := by
  have ha := hasAccount_of_get h
  exact hasAccount_set ha

theorem MoneyPath.hasAccount (h : MoneyPath height params Fee Rel l l' x) :
    l'.hasAccount = l.hasAccount := by
  induction h with
  | refl => rfl
  | tail _ step ih =>
    rw [← ih]
    cases step with
    | idle money => exact hasAccount_congr (accounts_of_money money)
    | release => exact hasAccount_release ..
    | charge _ p _ _ _ account _ money =>
      exact (hasAccount_congr (accounts_of_money money)).trans
        (hasAccount_debit account p.paid)

/-- No step closes an account. -/
theorem LedgerStep.hasAccount_mono (h : LedgerStep env height params fees l lab l' x c)
    (ha : l.hasAccount a = true) : l'.hasAccount a = true := by
  cases h.account_trivial with
  | deposit =>
    unfold hasAccount credit at *
    split
    all_goals
      rw [getInferenceAccount_set]
      split
      · rfl
      · exact ha
  | withdraw _ _ _ _ account =>
    rwa [hasAccount_debit account]
  | reserve row _ _ n res =>
    have hfreeze := hasAccount_freeze res.account row.taskId n
    exact (congrFun hfreeze a).trans ha
  | path _ path => rwa [path.hasAccount]
  | refund _ money =>
    rwa [hasAccount_congr (accounts_of_money money)]
  | fund _ step =>
    cases step with
    | idle | paid => exact ha

end Accounts

/-- The addresses of a pending task decode, and its user has an account. -/
def SecondVerificationPendingTask.Claimed (env : Env) (account : Addr → Bool)
    (apt : SecondVerificationPendingTask) : Prop :=
  ∃ u w, env.accAddressFromBech32 apt.userAddress = some u ∧
    env.accAddressFromBech32 apt.workerAddress = some w ∧ account u = true

/-- Every pending task is claimed. -/
def Ledger.Claimed (env : Env) (l : Ledger) : Prop := l.AllPending (·.Claimed env l.hasAccount)

theorem LedgerStep.claimed (h : LedgerStep env height params fees l lab l' x c)
    (hl : l.Claimed env) : l'.Claimed env := by
  have hsame : l'.AllPending (·.Claimed env l.hasAccount) := by
    refine h.allPending (fun e _ u w adm => ?_) (fun apt hapt => hapt) hl
    exact ⟨u, w, adm.user, adm.worker, Option.isSome_iff_exists.mpr adm.account⟩
  intro third t apt hapt
  obtain ⟨u, w, hu, hw, haccount⟩ := hsame third t apt hapt
  exact ⟨u, w, hu, hw, h.hasAccount_mono haccount⟩

/-- **Pending tasks are claimed** in every state of a run. -/
theorem Run.claimed {c : Chain} (hgenesis : AtGenesis env c₀) (run : Run env P c₀ c) :
    c.state.ledger.Claimed env := by
  refine run.preserves hgenesis (I := fun c => c.state.ledger.Claimed env)
    (hgenesis.initial.allPending _) ?_
  intro c ev c' x y _ hc _ hp
  exact hp.steps.invariant hc fun _ _ _ _ _ _ hl hstep => hstep.claimed hl

/-! ## backed records -/

/-- A payment that a record stands for. -/
structure Backs (params : Params) (log : List (Int × Effect)) (st : SettledTaskID)
    (p : Payment) : Prop where
  logged : (st.settledAt, .settled p) ∈ log
  task : p.task = st.taskId
  fee : p.paid = st.fee.amount
  executor : 0 ≤ p.executor
  verifiers : 0 ≤ p.verifiers
  out : p.verifiers + p.executor = if 0 < p.paid then p.paid - fundPart params p.paid else 0

namespace Ledger

/-- The record of every settled task is backed by a payment. -/
def Backed (params : Params) (l : Ledger) : Prop :=
  ∀ t st, l.getSettledTask t = some st → st.status = .settled → ∃ p, Backs params l.log st p

namespace Backed

variable (h : l.Backed params)
include h

theorem congr (hrecords : l'.settledTasks = l.settledTasks) (hlog : l'.log = l.log) :
    l'.Backed params := by
  intro t st hst hstatus
  rw [getSettledTask, hrecords] at hst
  rw [hlog]
  exact h t st hst hstatus

/-- The log may grow. -/
theorem note (height : Int) (e : Effect) : (l.note height e).Backed params := by
  intro t st hst hstatus
  obtain ⟨p, hp⟩ := h t st hst hstatus
  exact ⟨p, { hp with logged := .tail _ hp.logged }⟩

/-- A record of a task that is not settled needs no payment. -/
theorem unsettled (hst : st.status ≠ .settled) : (l.setSettledTask st).Backed params := by
  intro t st' hst' hstatus
  rw [getSettledTask_set] at hst'
  split at hst'
  · grind
  · exact h t st' hst' hstatus

theorem release (a : Addr) (t : TaskId) : (l.release a t).Backed params :=
  h.congr (settledTasks_release l a t) (log_release l a t)

/-- A task may be settled: its record is backed by the payment that goes with
it. -/
theorem settle (hst : st.status = .settled → Backs params ((height, .settled p) :: l.log) st p) :
    (l.settle height ia p st).Backed params := by
  intro t st' hst' hstatus
  have hst' : ((l.debit ia p.paid).setSettledTask st).getSettledTask t = some st' := hst'
  rw [getSettledTask_set] at hst'
  split at hst'
  · cases hst'
    exact ⟨p, hst hstatus⟩
  · obtain ⟨q, hq⟩ := h t st' hst' hstatus
    exact ⟨q, { hq with logged := .tail _ hq.logged }⟩

/-- Steps on a queue leave records and log alone. -/
theorem setQueue (q : AuditQueue third) : (l.setQueue third q).Backed params := by
  cases third <;> exact h.congr rfl rfl

theorem releasePending (env : Env) (apt : SecondVerificationPendingTask) :
    (l.releasePending env apt).Backed params := by
  unfold Ledger.releasePending
  split
  · exact h
  · exact h.release _ _

theorem failPending (height : Int) (apt : SecondVerificationPendingTask) :
    (l.failPending height apt).Backed params :=
  (h.unsettled (by simp [auditRecordOf])).setQueue _

theorem markFraud (t : TaskId) : (l.markFraud t).Backed params := by
  have hmark : (l.setFraudMark t).Backed params := h.congr rfl rfl
  unfold Ledger.markFraud
  split
  · split
    · exact hmark.unsettled nofun
    · exact hmark
  · exact hmark

theorem cleanup (cutoff : Int) : (l.cleanup cutoff).Backed params := by
  intro t st hst hstatus
  have hget : (l.cleanup cutoff).getSettledTask t =
      (l.getSettledTask t).filter fun st => !expiredRecord cutoff st := Table.get_filter ..
  rw [hget] at hst
  exact h t st (Option.filter_eq_some_iff.mp hst).1 hstatus

end Backed

end Ledger

/-- A charge that is recorded as settled backs its record. -/
theorem Charge.backs {fee balance : Int} {log : List (Int × Effect)}
    (h : Charge params fee balance p asSuccess) (hstatus : st.status = chargedStatus asSuccess)
    (htask : p.task = st.taskId) (hfee : asSuccess = true → st.fee = ⟨defaultDenom, p.paid⟩)
    (hsettled : st.status = .settled) : Backs params ((st.settledAt, .settled p) :: log) st p := by
  cases h with
  | success _ pay =>
    exact ⟨.head _, htask, congrArg Coin.amount (hfee rfl).symm, pay.executor,
      pay.verifiers, pay.out⟩
  | fail => exact absurd (hstatus.symm.trans hsettled) (by decide)

section Steps
variable {out : Int} (hl : l.Backed params)
include hl

theorem EntryStep.backed {counted : Int} (h : EntryStep env height params e l l' out counted) :
    l'.Backed params := by
  cases h with
  | skipped => exact hl
  | parked =>
    exact Ledger.Backed.unsettled (hl.setQueue _) nofun
  | refused u => exact hl.release u _
  | unpaid u =>
    exact (hl.release u _).unsettled nofun
  | charged u _ _ _ _ _ _ _ task _ charge _ hrecorded =>
    exact (hl.release u _).settle fun hstatus =>
      charge.backs rfl task (fun hs => hrecorded (by simpa using hs)) hstatus

theorem AuditedStep.backed {override : UInt32}
    (h : AuditedStep env height params apt asSuccess override l l' settled out) :
    l'.Backed params := by
  cases h with
  | marked | stuck => exact hl
  | refused _ u => exact hl.release u _
  | charged _ u _ _ _ _ _ _ task _ charge _ hrecorded =>
    exact (hl.release u _).settle fun hstatus => charge.backs rfl task hrecorded hstatus

theorem JudgmentStep.backed (h : JudgmentStep env height params ar apt l l' out) :
    l'.Backed params := by
  cases h with
  | escalated => exact (hl.setQueue _).setQueue _
  | tokenFraud _ _ step => exact step.backed ((hl.releasePending env apt).failPending _ _)
  | overturned => exact hl.failPending _ _
  | settled step => exact (step.backed hl).setQueue _
  | retained step => exact step.backed hl

theorem VoteStep.backed {msg : MsgSecondVerificationResult}
    (h : VoteStep env height params msg l l' out) : l'.Backed params := by
  cases h with
  | ignored => exact hl
  | recorded => exact hl.congr rfl rfl
  | judged _ _ _ step => exact step.backed (by exact hl.congr rfl rfl)

theorem TimeoutStep.backed {turn : SecondVerificationPendingTask × HeightKey}
    (h : TimeoutStep env height params third turn l l' out) : l'.Backed params := by
  cases h with
  | settled step => exact (step.backed hl).setQueue _
  | failed step =>
    exact ((step.backed hl).unsettled (by simp [auditRecordOf])).setQueue _

theorem Sweep.backed {turns : List (SecondVerificationPendingTask × HeightKey)}
    (h : Sweep env height params third turns l l' out) : l'.Backed params := by
  induction h with
  | nil => exact hl
  | cons step _ ih => exact ih (step.backed hl)

/-- A step keeps every settled record backed. -/
theorem LedgerStep.backed (h : LedgerStep env height params fees l lab l' out c) :
    l'.Backed params := by
  cases h with
  | idle => exact hl
  | deposit =>
    unfold credit
    split <;> exact hl.congr rfl rfl
  | withdraw => exact hl.congr rfl rfl
  | reserve row _ ia n =>
    have hfreeze : (l.freeze ia row.taskId n).Backed params := hl.congr rfl rfl
    exact hfreeze.note _ _
  | entry step | vote step => exact step.backed hl
  | fraud step =>
    obtain ⟨unmarked, known, out, refund⟩ := step
    exact hl.markFraud _
  | cleanup => exact hl.cleanup _
  | sweep step =>
    cases step with
    | early => exact hl
    | swept _ turns => exact turns.backed hl
  | fund step =>
    cases step with
    | idle => exact hl
    | paid => exact hl.note _ _

end Steps

/-- **Settled records are backed** in every state of a run, and the parameters
are those of the genesis. -/
theorem Run.backed {c : Chain} (hgenesis : AtGenesis env c₀) (run : Run env P c₀ c) :
    c.state.params = c₀.state.params ∧ c.state.ledger.Backed c.state.params := by
  refine run.preserves hgenesis (I := fun c => c.state.params = c₀.state.params ∧
    c.state.ledger.Backed c.state.params) ⟨rfl, ?_⟩ ?_
  · intro t st hst
    have hrecord : (c₀.state.ledger.view t).record = some st := hst
    rw [hgenesis.initial.view] at hrecord
    contradiction
  · intro c ev c' x y _ hc _ hp
    rw [hp.params]
    exact ⟨hc.1, hp.steps.invariant hc.2 fun _ _ _ _ _ _ hl hstep => hstep.backed hl⟩

end FunaiChain.Settlement
