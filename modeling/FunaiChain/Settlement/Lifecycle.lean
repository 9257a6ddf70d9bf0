import FunaiChain.Settlement.Machine

/-!
# FunaiChain.Settlement.Lifecycle

The life of one task.  Its view of the ledger is its dedup record, its fraud mark,
its place in the two audit queues, its reservation, its votes and its part of the
log; every operation of the ledger leaves a view alone or changes it in the one
way its lemma here says.

`TaskStep` lists every way in which a step of the ledger can change a view, and
`LedgerStep.task` is the simulation: a step of the ledger is, seen from any task, a
step of this machine.  Whether an account exists is not part of a view; the
relations take it as a parameter `account`.
-/

namespace FunaiChain.Settlement

variable {l : Ledger}

section
variable {ia : InferenceAccount} {a : Addr}

/-! ## the view -/

namespace Effect

/-- The task an effect is about. -/
def task : Effect → Option TaskId
  | .reserved t _ _ _ => some t
  | .settled p => some p.task
  | .fundPaid _ _ => none

end Effect

/-- What the ledger holds about one task. -/
structure TaskView where
  record : Option SettledTaskID
  marked : Bool
  second : Option SecondVerificationPendingTask
  third : Option SecondVerificationPendingTask
  frozen : Option UInt64
  votes : Option SecondVerificationRecord
  log : List (Int × Effect)

namespace TaskView

/-- The entry of the task in the queue of a tier. -/
def pending (v : TaskView) : Bool → Option SecondVerificationPendingTask
  | false => v.second
  | true => v.third

/-- Replace the entry of the task in the queue of a tier. -/
def setPending (v : TaskView) : Bool → Option SecondVerificationPendingTask → TaskView
  | false, apt => { v with second := apt }
  | true, apt => { v with third := apt }

theorem setPending_pending (v : TaskView) (third : Bool) :
    v.setPending third (v.pending third) = v := by
  cases third <;> rfl

/-- The status a fraud proof leaves on a record. -/
def revoke (st : SettledTaskID) : SettledTaskID :=
  if st.status = .settled then { st with status := .fraud } else st

end TaskView

namespace Ledger

/-- The part of the log that is about a task. -/
def history (l : Ledger) (t : TaskId) : List (Int × Effect) :=
  l.log.filter fun e => e.2.task = some t

/-- Is there an account at this address? -/
def hasAccount (l : Ledger) (a : Addr) : Bool := (l.getInferenceAccount a).isSome

def view (l : Ledger) (t : TaskId) : TaskView where
  record := l.getSettledTask t
  marked := l.hasFraudMark t
  second := l.pendingAt false t
  third := l.pendingAt true t
  frozen := l.frozenBalance.get t
  votes := l.getSecondVerificationRecord t
  log := l.history t

section View
variable (l : Ledger) {t u : TaskId} {third : Bool} {height : Int} {ia : InferenceAccount}
  {apt : SecondVerificationPendingTask} {st : SettledTaskID}

theorem pending_view (third : Bool) (t : TaskId) :
    (l.view t).pending third = l.pendingAt third t := by
  cases third <;> rfl

/-! ## how the operations change a view -/

theorem view_setSettledTask : (l.setSettledTask st).view t =
      if st.taskId = t then { l.view t with record := some st } else l.view t := by
  unfold view
  rw [getSettledTask_set]
  split <;> rfl

theorem view_setSecondVerificationRecord (ar : SecondVerificationRecord) :
    (l.setSecondVerificationRecord ar).view t =
      if ar.taskId = t then { l.view t with votes := some ar } else l.view t := by
  have h : (l.setSecondVerificationRecord ar).getSecondVerificationRecord t =
      if ar.taskId = t then some ar else l.getSecondVerificationRecord t :=
    Table.get_set l.secondVerificationRecords ar.taskId t ar rfl
  unfold view
  rw [h]
  split <;> rfl

theorem view_note (e : Effect) : (l.note height e).view t =
      if e.task = some t then { l.view t with log := (height, e) :: l.history t }
      else l.view t := by
  have h : (l.note height e).history t =
      if e.task = some t then (height, e) :: l.history t else l.history t := by
    simp [history, note, List.filter_cons]
  unfold view
  rw [h]
  split <;> rfl

/-- A release for an account that is there drops the reservation. -/
theorem view_release (a : Addr) (u t : TaskId) : (l.release a u).view t =
      if u = t ∧ l.hasAccount a = true then { l.view t with frozen := none } else l.view t := by
  obtain ⟨hr, hnone⟩ | ⟨n, ia, hn, hia, hr⟩ := release_cases l a u
  · rw [hr]
    split
    · next hc =>
      obtain ⟨rfl, ha⟩ := hc
      obtain hn | hia := hnone
      · unfold view
        rw [hn]
      · simp [hasAccount, hia] at ha
    · rfl
  · have ha : l.hasAccount a = true := by simp [hasAccount, hia]
    have hfrozen : (l.releaseFrom ia n u).frozenBalance.get t =
        if u = t then none else l.frozenBalance.get t := Table.get_erase ..
    rw [hr]
    unfold view
    rw [hfrozen]
    by_cases hu : u = t
    · rw [if_pos hu, if_pos ⟨hu, ha⟩]
      rfl
    · rw [if_neg hu, if_neg fun hc => hu hc.1]
      rfl

theorem view_freeze (n : UInt64) : (l.freeze ia u n).view t =
      if u = t then { l.view t with frozen := some n } else l.view t := by
  have hfrozen : (l.freeze ia u n).frozenBalance.get t =
      if u = t then some n else l.frozenBalance.get t := Table.get_put ..
  unfold view
  rw [hfrozen]
  split <;> rfl

theorem view_credit (a : Addr) (x : Int) : (l.credit a x).view t = l.view t := by
  unfold credit
  split <;> rfl

theorem view_settle {p : Payment} (hp : p.task = st.taskId) : (l.settle height ia p st).view t =
      if st.taskId = t then
        { l.view t with record := some st, log := (height, .settled p) :: l.history t }
      else l.view t := by
  rw [settle, view_note, view_setSettledTask]
  simp only [Effect.task, hp, Option.some.injEq]
  split <;> rfl

/-- A new queue changes a view at its own tier only. -/
theorem view_setQueue (q : AuditQueue third) :
    (l.setQueue third q).view t = (l.view t).setPending third (q.pending.get t) := by
  cases third <;> rfl

theorem setPending_view :
    (l.view t).setPending third ((l.queue third).pending.get t) = l.view t := by
  have h := (l.view t).setPending_pending third
  rwa [pending_view] at h

theorem view_setSecondVerificationPending : (l.setSecondVerificationPending apt).view t =
      if apt.taskId = t then (l.view t).setPending apt.isThirdVerification (some apt)
      else l.view t := by
  rw [setSecondVerificationPending, view_setQueue, AuditQueue.pending_push]
  split
  · rfl
  · exact l.setPending_view

theorem view_delete : (l.deleteSecondVerificationPending u third).view t =
      if u = t then (l.view t).setPending third none else l.view t := by
  rw [deleteSecondVerificationPending, view_setQueue, AuditQueue.pending_delete]
  split
  · rfl
  · exact l.setPending_view

theorem view_finishTimeout (key : HeightKey) : (l.finishTimeout third u key).view t =
      if u = t then (l.view t).setPending third none else l.view t := by
  rw [finishTimeout, view_setQueue, AuditQueue.pending_finish]
  split
  · rfl
  · exact l.setPending_view

theorem view_failPending :
    (l.failPending height apt).view t =
      if apt.taskId = t then
        { l.view t with
          record := some (auditRecordOf height apt .failed Coin.zero), second := none }
      else l.view t := by
  rw [failPending, view_delete, view_setSettledTask]
  by_cases ht : apt.taskId = t
  · rw [if_pos ht, if_pos (by exact ht), if_pos ht]
    rfl
  · rw [if_neg ht, if_neg (by exact ht), if_neg ht]

theorem view_setFraudMark : (l.setFraudMark u).view t =
      if u = t then { l.view t with marked := true } else l.view t := by
  unfold view
  rw [hasFraudMark_set]
  by_cases hu : u = t
  · rw [if_pos hu, decide_eq_true hu, Bool.true_or]
    rfl
  · rw [if_neg hu, decide_eq_false hu, Bool.false_or]
    rfl

theorem view_markFraud :
    (l.markFraud u).view t =
      if u = t then
        { l.view t with marked := true, record := (l.getSettledTask t).map TaskView.revoke }
      else l.view t := by
  have hmark := l.view_setFraudMark (t := t) (u := u)
  unfold markFraud
  cases hst : l.getSettledTask u with
  | none =>
    rw [hmark]
    split
    · next hu => rw [← hu, hst, view, hst, Option.map_none]
    · rfl
  | some =>
    have htask := taskId_of_get hst
    dsimp only
    split
    · next hs =>
      rw [view_setSettledTask, hmark]
      by_cases hu : u = t
      · rw [if_pos hu, if_pos hu, if_pos (htask.trans hu), ← hu, hst, Option.map_some,
          TaskView.revoke, if_pos hs]
      · rw [if_neg hu, if_neg hu, if_neg fun he => hu (htask.symm.trans he)]
    · next hs =>
      rw [hmark]
      split
      · next hu =>
        rw [← hu, hst, view, hst, Option.map_some, TaskView.revoke, if_neg hs]
      · rfl

theorem view_cleanup (cutoff : Int) : (l.cleanup cutoff).view t = { l.view t with
        record := (l.getSettledTask t).filter fun st => !expiredRecord cutoff st } := by
  have h : (l.cleanup cutoff).getSettledTask t =
      (l.getSettledTask t).filter fun st => !expiredRecord cutoff st := Table.get_filter ..
  unfold view
  rw [h]
  rfl

theorem view_park (e : SettlementEntry) :
    (park height l e).view t =
      if e.taskId = t then
        { l.view t with
          record := some (recordOf height e .pendingSecondVerification e.fee)
          second := some (pendingOf height e) }
      else l.view t := by
  rw [park, view_setSettledTask, view_setSecondVerificationPending]
  by_cases ht : e.taskId = t
  · rw [if_pos ht, if_pos (by exact ht), if_pos (by exact ht)]
    rfl
  · rw [if_neg ht, if_neg (by exact ht), if_neg (by exact ht)]

theorem view_escalate :
    (escalate height l apt).view t =
      if apt.taskId = t then
        { l.view t with second := none, third := some (thirdPendingOf height apt) }
      else l.view t := by
  rw [escalate, view_delete, view_setSecondVerificationPending]
  by_cases ht : apt.taskId = t
  · rw [if_pos ht, if_pos ht, if_pos (by exact ht)]
    rfl
  · rw [if_neg ht, if_neg ht, if_neg (by exact ht)]

end View

/-! ## accounts stay -/

/-- Writing an account that is there opens none. -/
theorem hasAccount_set (h : l.hasAccount ia.address = true) :
    (l.setInferenceAccount ia).hasAccount = l.hasAccount := by
  funext a
  unfold hasAccount
  rw [getInferenceAccount_set]
  split
  · next ha => rw [← ha]; exact h.symm
  · rfl

theorem hasAccount_of_get (h : l.getInferenceAccount a = some ia) :
    l.hasAccount ia.address = true := by
  rw [address_of_get h, hasAccount, h]
  rfl

theorem hasAccount_release (l : Ledger) (a : Addr) (t : TaskId) :
    (l.release a t).hasAccount = l.hasAccount := by
  obtain ⟨hr, -⟩ | ⟨n, ia, -, hia, hr⟩ := release_cases l a t
  · rw [hr]
  · have ha := hasAccount_of_get hia
    rw [hr]
    exact hasAccount_set ha

theorem hasAccount_settle (h : l.getInferenceAccount a = some ia) (height : Int) (p : Payment)
    (st : SettledTaskID) : (l.settle height ia p st).hasAccount = l.hasAccount := by
  have ha := hasAccount_of_get h
  exact hasAccount_set ha

theorem hasAccount_releasePending (env : Env) (l : Ledger) (apt : SecondVerificationPendingTask) :
    (l.releasePending env apt).hasAccount = l.hasAccount := by
  unfold releasePending
  split
  · rfl
  · exact hasAccount_release ..

/-! ## queues stay -/

theorem queue_release (l : Ledger) (a : Addr) (t : TaskId) (third : Bool) :
    (l.release a t).queue third = l.queue third := by
  cases third with
  | false => exact second_release l a t
  | true => exact third_release l a t

theorem queue_releasePending (env : Env) (l : Ledger) (apt : SecondVerificationPendingTask)
    (third : Bool) : (l.releasePending env apt).queue third = l.queue third := by
  unfold releasePending
  split
  · rfl
  · exact l.queue_release _ _ third

theorem queue_settle (l : Ledger) (height : Int) (ia : InferenceAccount) (p : Payment)
    (st : SettledTaskID) (third : Bool) :
    (l.settle height ia p st).queue third = l.queue third := by
  cases third <;> rfl

end Ledger

end

open Ledger TaskView
variable {l' : Ledger} {counted out : Int} {t : TaskId} {asSuccess settled third : Bool}
  {apt : SecondVerificationPendingTask} {turn : SecondVerificationPendingTask × HeightKey}
  {override : UInt32} {ar : SecondVerificationRecord} {e : SettlementEntry} {lab : Label}
  {turns : List (SecondVerificationPendingTask × HeightKey)} {u w : Addr} {fees : Int → Int}
  {Q : SecondVerificationPendingTask → Prop}

/-! ## settlement after audit -/

section
variable (env : Env) (height : Int) (account : Addr → Bool) (apt : SecondVerificationPendingTask)
  (v : TaskView)

/-- `AuditedStep` seen from its task. -/
inductive TaskAudited : TaskView → Bool → Prop
  | marked (mark : v.marked = true) : TaskAudited v true
  | stuck (unmarked : v.marked = false)
      (missing : ∀ u w, env.accAddressFromBech32 apt.userAddress = some u →
        env.accAddressFromBech32 apt.workerAddress = some w → account u = false) :
      TaskAudited v false
  | refused (unmarked : v.marked = false) : TaskAudited { v with frozen := none } false
  | charged (unmarked : v.marked = false) (asSuccess : Bool) (p : Payment)
      (task : p.task = apt.taskId) (recorded : Coin) :
      TaskAudited { v with
          frozen := none
          record := some (auditRecordOf height apt (chargedStatus asSuccess) recorded)
          log := (height, .settled p) :: v.log } true

end

namespace TaskView

/-- The view after `releasePending`. -/
def releaseFor (env : Env) (account : Addr → Bool) (apt : SecondVerificationPendingTask)
    (v : TaskView) : TaskView :=
  if (env.accAddressFromBech32 apt.userAddress).any account then { v with frozen := none } else v

end TaskView

section
variable (env : Env) (height : Int) (params : Params) (account : Addr → Bool)
  (ar : SecondVerificationRecord) (apt : SecondVerificationPendingTask) (v : TaskView)

/-- `JudgmentStep` seen from its task. -/
inductive TaskJudged : TaskView → Prop
  | escalated : TaskJudged { v with second := none, third := some (thirdPendingOf height apt) }
  | tokenFraud {v' : TaskView} {settled : Bool}
      (step : TaskAudited env height account apt
        { v.releaseFor env account apt with
          record := some (auditRecordOf height apt .failed Coin.zero), second := none }
        v' settled) :
      TaskJudged v'
  | overturned (status : apt.originalStatus = .success)
      (fail : auditPasses params ar.results = false) :
      TaskJudged
        { v with record := some (auditRecordOf height apt .failed Coin.zero), second := none }
  | settled {v' : TaskView} (step : TaskAudited env height account apt v v' true) :
      TaskJudged { v' with second := none }
  | retained {v' : TaskView} (step : TaskAudited env height account apt v v' false) : TaskJudged v'

end

section
variable (env : Env) (height : Int) (account : Addr → Bool) (third : Bool)
  (apt : SecondVerificationPendingTask) (v : TaskView)

/-- A turn of the timeout sweep seen from its task. -/
inductive TaskTimeout : TaskView → Prop
  | settled {v' : TaskView} (step : TaskAudited env height account apt v v' true) :
      TaskTimeout (v'.setPending third none)
  | failed {v' : TaskView} (step : TaskAudited env height account apt v v' false) :
      TaskTimeout
        ({ v' with record := some (auditRecordOf height apt .failed Coin.zero) }.setPending
          third none)

/-- The turns of one sweep that are about the task; more than one only if the
index lists the task more than once. -/
inductive TaskTurns : TaskView → TaskView → Prop
  | nil (v : TaskView) : TaskTurns v v
  | cons {v v₁ v₂ : TaskView} (turn : TaskTimeout env height account third apt v v₁)
      (rest : TaskTurns v₁ v₂) : TaskTurns v v₂

end

/-! ## the life of a task -/

/-- What the chain knows of a task whose entry it looks at. -/
structure TaskView.Open (env : Env) (height : Int) (account : Addr → Bool) (v : TaskView)
    (e : SettlementEntry) (u w : Addr) : Prop where
  denom : e.nominal.denom = defaultDenom
  unsettled : v.record = none
  unmarked : v.marked = false
  unexpired : ¬ (0 < e.expireBlock ∧ e.expireBlock < height)
  user : env.accAddressFromBech32 e.userAddress = some u
  worker : env.accAddressFromBech32 e.workerAddress = some w
  account : account u = true

section
variable (env : Env) (height : Int) (params : Params) (account : Addr → Bool) (t : TaskId)
  (v : TaskView)

/-- Every way in which a step of the ledger can change what it holds about the
task `t`. -/
inductive TaskStep : Label → TaskView → Prop
  /-- The step is about something else, or did nothing. -/
  | idle (lab : Label) : TaskStep lab v
  | reserved (row : ReserveEntry) (task : row.taskId = t) (u : Addr) (n : UInt64)
      (user : env.accAddressFromBech32 row.userAddress = some u)
      (unsettled : v.record = none) (unreserved : v.frozen = none) :
      TaskStep (.reserve row) { v with
          frozen := some n
          log := (height, .reserved t u (MathInt.ofUInt64 n) row.expireBlock) :: v.log }
  | parked (e : SettlementEntry) (task : e.taskId = t) (u w : Addr)
      (is_open : v.Open env height account e u w) :
      TaskStep (.entry e) { v with
          record := some (recordOf height e .pendingSecondVerification e.fee)
          second := some (pendingOf height e) }
  | refused (e : SettlementEntry) (task : e.taskId = t) (u w : Addr)
      (is_open : v.Open env height account e u w) :
      TaskStep (.entry e) { v with frozen := none }
  | unpaid (e : SettlementEntry) (task : e.taskId = t) (u w : Addr)
      (is_open : v.Open env height account e u w) :
      TaskStep (.entry e)
        { v with frozen := none, record := some (recordOf height e .failSettled Coin.zero) }
  | charged (e : SettlementEntry) (task : e.taskId = t) (u w : Addr)
      (is_open : v.Open env height account e u w) (asSuccess : Bool) (p : Payment)
      (paid : p.task = t) (recorded : Coin) :
      TaskStep (.entry e) { v with
          frozen := none
          record := some (recordOf height e (chargedStatus asSuccess) recorded)
          log := (height, .settled p) :: v.log }
  | voted (msg : MsgSecondVerificationResult) (task : msg.taskId = t)
      (apt : SecondVerificationPendingTask) (pending : v.second = some apt)
      (votable : Votable height params apt v.votes msg)
      (incomplete : lenUInt32 (addVote height msg v.votes).results < params.secondVerifierCount) :
      TaskStep (.vote msg) { v with votes := some (addVote height msg v.votes) }
  | judged (msg : MsgSecondVerificationResult) (task : msg.taskId = t)
      (apt : SecondVerificationPendingTask) (pending : v.second = some apt)
      (complete : params.secondVerifierCount ≤ lenUInt32 (addVote height msg v.votes).results)
      {v' : TaskView}
      (step : TaskJudged env height params account (addVote height msg v.votes) apt
        { v with votes := some (addVote height msg v.votes) } v')
      (votable : Votable height params apt v.votes msg) :
      TaskStep (.vote msg) v'
  | fraud (msg : MsgFraudProof) (task : msg.taskId = t) (unmarked : v.marked = false)
      (known : v.record.isSome ∨ v.second.isSome ∨ v.frozen.isSome) :
      TaskStep (.fraud msg) { v with marked := true, record := v.record.map revoke }
  | cleanup :
      TaskStep .cleanup { v with
          record := v.record.filter fun st =>
            !expiredRecord (height - params.taskCleanupBuffer) st }
  | swept (third : Bool) (apt : SecondVerificationPendingTask)
      (pending : v.pending third = some apt) {v' : TaskView}
      (turns : TaskTurns env height account third apt v v') :
      TaskStep (.sweep third) v'

end

/-! ## the simulation -/

section Simulation
variable {env : Env} {height : Int} {params : Params}

section
variable (h : AuditedStep env height params apt asSuccess override l l' settled out)
include h

theorem AuditedStep.hasAccount : l'.hasAccount = l.hasAccount := by
  cases h with
  | marked | stuck => rfl
  | refused => exact hasAccount_release ..
  | charged _ _ _ _ _ _ account =>
    rw [hasAccount_settle account, hasAccount_release]

theorem AuditedStep.view_of_ne (ht : apt.taskId ≠ t) : l'.view t = l.view t := by
  cases h with
  | marked | stuck => rfl
  | refused => rw [view_release, if_neg fun hc => ht hc.1]
  | charged _ _ _ _ _ _ _ _ task =>
    rw [view_settle _ (by exact task), if_neg (by exact ht),
      view_release, if_neg fun hc => ht hc.1]

theorem AuditedStep.task (ht : apt.taskId = t) :
    TaskAudited env height l.hasAccount apt (l.view t) (l'.view t) settled := by
  subst ht
  cases h with
  | marked mark => exact .marked mark
  | stuck unmarked missing =>
    refine .stuck unmarked fun u w hu hw => ?_
    rw [Ledger.hasAccount, missing u w hu hw]
    rfl
  | refused unmarked _ _ account =>
    rw [view_release, if_pos ⟨rfl, account⟩]
    exact .refused unmarked
  | charged unmarked u _ _ _ _ account p task =>
    have hu : l.hasAccount u = true := by
      rw [← hasAccount_release l u apt.taskId, Ledger.hasAccount, account]
      rfl
    rw [view_settle _ (by exact task), if_pos (by rfl), view_release,
      if_pos ⟨rfl, hu⟩, history, log_release]
    exact .charged unmarked asSuccess p task _

end

theorem view_releasePending (l : Ledger) (apt : SecondVerificationPendingTask) :
    (l.releasePending env apt).view apt.taskId =
    (l.view apt.taskId).releaseFor env l.hasAccount apt := by
  unfold releasePending releaseFor
  cases env.accAddressFromBech32 apt.userAddress with
  | none => rfl
  | some => rw [view_release]; simp

theorem view_releasePending_of_ne (l : Ledger) (ht : apt.taskId ≠ t) :
    (l.releasePending env apt).view t = l.view t := by
  unfold releasePending
  cases env.accAddressFromBech32 apt.userAddress with
  | none => rfl
  | some => rw [view_release, if_neg fun hc => ht hc.1]

theorem JudgmentStep.view_of_ne (h : JudgmentStep env height params ar apt l l' out)
    (ht : apt.taskId ≠ t) : l'.view t = l.view t := by
  cases h with
  | escalated => rw [view_escalate, if_neg ht]
  | tokenFraud _ _ step =>
    rw [step.view_of_ne ht, view_failPending, if_neg ht, view_releasePending_of_ne l ht]
  | overturned => rw [view_failPending, if_neg ht]
  | settled step => rw [view_delete, if_neg ht, step.view_of_ne ht]
  | retained step => exact step.view_of_ne ht

theorem JudgmentStep.task (h : JudgmentStep env height params ar apt l l' out)
    (ht : apt.taskId = t) :
    TaskJudged env height params l.hasAccount ar apt (l.view t) (l'.view t) := by
  subst ht
  cases h with
  | escalated =>
    rw [view_escalate, if_pos rfl]
    exact .escalated
  | tokenFraud _ _ step =>
    have hstep := step.task rfl
    rw [view_failPending, if_pos rfl, view_releasePending] at hstep
    have haccount : ((l.releasePending env apt).failPending height apt).hasAccount =
        l.hasAccount := hasAccount_releasePending env l apt
    rw [haccount] at hstep
    exact .tokenFraud hstep
  | overturned status fail =>
    rw [view_failPending, if_pos rfl]
    exact .overturned status fail
  | settled step =>
    rw [view_delete, if_pos rfl]
    exact .settled (step.task rfl)
  | retained step => exact .retained (step.task rfl)

section
variable (h : TimeoutStep env height params third turn l l' out)
include h

theorem TimeoutStep.hasAccount : l'.hasAccount = l.hasAccount := by
  cases h with
  | settled step | failed step => rw [← step.hasAccount]; cases third <;> rfl

theorem TimeoutStep.view_of_ne (ht : turn.1.taskId ≠ t) : l'.view t = l.view t := by
  cases h with
  | settled step => rw [view_finishTimeout, if_neg ht, step.view_of_ne ht]
  | failed step =>
    rw [view_finishTimeout, if_neg ht, view_setSettledTask,
      if_neg (by exact ht), step.view_of_ne ht]

theorem TimeoutStep.task (ht : turn.1.taskId = t) :
    TaskTimeout env height l.hasAccount third turn.1 (l.view t) (l'.view t) := by
  cases h with
  | settled step =>
    rw [view_finishTimeout, if_pos ht]
    exact .settled (step.task ht)
  | failed step =>
    rw [view_finishTimeout, if_pos ht, view_setSettledTask, if_pos (by exact ht)]
    exact .failed (step.task ht)

end

/-- A sweep that lists no turn of the task leaves its view alone. -/
theorem Sweep.view_of_not_mem (h : Sweep env height params third turns l l' out)
    (ht : ∀ turn ∈ turns, turn.1.taskId ≠ t) : l'.view t = l.view t := by
  induction h with
  | nil => rfl
  | cons step _ ih =>
    rw [ih fun turn hturn => ht turn (.tail _ hturn), step.view_of_ne (ht _ (.head _))]

theorem Sweep.task (h : Sweep env height params third turns l l' out)
    (hturns : ∀ turn ∈ turns, turn.1.taskId = t → turn.1 = apt) :
    TaskTurns env height l.hasAccount third apt (l.view t) (l'.view t) := by
  induction h with
  | nil => exact .nil _
  | @cons turn turns l l₁ l₂ x y step rest ih =>
    have hrest := ih fun turn hturn => hturns turn (.tail _ hturn)
    rw [step.hasAccount] at hrest
    by_cases ht : turn.1.taskId = t
    · have happ := step.task ht
      rw [hturns turn List.mem_cons_self ht] at happ
      exact .cons happ hrest
    · rwa [step.view_of_ne ht] at hrest

/-- A turn of the sweep is about a task of the queue. -/
theorem mem_sweepTurns {q : AuditQueue third} {cutoff : Int} (h : turn ∈ sweepTurns q cutoff) :
    q.pending.get turn.1.taskId = some turn.1 := by
  obtain ⟨k, -, hk⟩ := List.mem_filterMap.mp (List.of_mem_zip h).1
  split at hk
  · cases hk
  · rw [(q.pending.lawful _ _ hk).1]
    exact hk

/-- A turn of a task comes with the entry that waits for it. -/
theorem Ledger.pendingAt_of_turn {cutoff : Int} (h : turn ∈ sweepTurns (l.queue third) cutoff)
    (ht : turn.1.taskId = t) : l.pendingAt third t = some turn.1 :=
  ht ▸ mem_sweepTurns h

theorem SweepStep.task {timeout : Int} (h : SweepStep env height params third timeout l l' out)
    (t : TaskId) :
    TaskStep env height params l.hasAccount t (l.view t) (.sweep third) (l'.view t) := by
  cases h with
  | early => exact .idle _
  | swept _ turns =>
    cases hapt : l.pendingAt third t with
    | none =>
      rw [turns.view_of_not_mem fun turn hturn ht => ?_]
      · exact .idle _
      · exact nomatch hapt.symm.trans (l.pendingAt_of_turn hturn ht)
    | some apt =>
      refine .swept third apt ((l.pending_view third t).trans hapt)
        (turns.task fun turn hturn ht => ?_)
      exact Option.some.inj ((l.pendingAt_of_turn hturn ht).symm.trans hapt)

theorem Admissible.view_open (adm : Admissible env height l e u w) :
    (l.view e.taskId).Open env height l.hasAccount e u w := by
  refine ⟨adm.denom, adm.unsettled, adm.unmarked, adm.unexpired, adm.user, adm.worker, ?_⟩
  obtain ⟨ia, hia⟩ := adm.account
  rw [hasAccount, hia]
  rfl

theorem TaskView.Open.admissible (h : (l.view e.taskId).Open env height l.hasAccount e u w) :
    Admissible env height l e u w :=
  ⟨h.denom, h.unsettled, h.unmarked, h.unexpired, h.user, h.worker,
    Option.isSome_iff_exists.mp h.account⟩

theorem EntryStep.task (h : EntryStep env height params e l l' out counted) (t : TaskId) :
    TaskStep env height params l.hasAccount t (l.view t) (.entry e) (l'.view t) := by
  by_cases ht : e.taskId = t
  · subst ht
    cases h with
    | skipped => exact .idle _
    | parked u w adm =>
      rw [view_park, if_pos rfl]
      exact .parked e rfl u w adm.view_open
    | refused u w adm =>
      rw [view_release, if_pos ⟨rfl, adm.view_open.account⟩]
      exact .refused e rfl u w adm.view_open
    | unpaid u w adm =>
      rw [view_setSettledTask, if_pos (by rfl), view_release,
        if_pos ⟨rfl, adm.view_open.account⟩]
      exact .unpaid e rfl u w adm.view_open
    | charged u w adm _ _ _ _ p task =>
      rw [view_settle _ (by exact task), if_pos (by rfl), view_release,
        if_pos ⟨rfl, adm.view_open.account⟩, history, log_release]
      exact .charged e rfl u w adm.view_open _ p task _
  · have hview : l'.view t = l.view t := by
      cases h with
      | skipped => rfl
      | parked => rw [view_park, if_neg ht]
      | refused => rw [view_release, if_neg fun hc => ht hc.1]
      | unpaid =>
        rw [view_setSettledTask, if_neg (by exact ht), view_release,
          if_neg fun hc => ht hc.1]
      | charged _ _ _ _ _ _ _ _ task =>
        rw [view_settle _ (by exact task), if_neg (by exact ht),
          view_release, if_neg fun hc => ht hc.1]
    rw [hview]
    exact .idle _

theorem VoteStep.task {msg : MsgSecondVerificationResult}
    (h : VoteStep env height params msg l l' out) (t : TaskId) :
    TaskStep env height params l.hasAccount t (l.view t) (.vote msg) (l'.view t) := by
  have hvotes := l.view_setSecondVerificationRecord (t := t)
    (addVote height msg (l.getSecondVerificationRecord msg.taskId))
  rw [addVote_taskId] at hvotes
  cases h with
  | ignored => exact .idle _
  | recorded apt pending incomplete votable =>
    rw [hvotes]
    split
    · next ht =>
      subst ht
      exact .voted msg rfl apt pending votable incomplete
    · exact .idle _
  | judged apt pending complete step votable =>
    have hapt : apt.taskId = msg.taskId := (l.second.pending.lawful _ _ pending).1
    by_cases ht : msg.taskId = t
    · subst ht
      rw [if_pos rfl] at hvotes
      have hstep := step.task hapt
      rw [hvotes] at hstep
      exact .judged msg rfl apt pending complete hstep votable
    · rw [if_neg ht] at hvotes
      rw [step.view_of_ne (hapt ▸ ht), hvotes]
      exact .idle _

theorem FraudStep.task {msg : MsgFraudProof} (h : FraudStep msg l l' out) (t : TaskId) :
    TaskStep env height params l.hasAccount t (l.view t) (.fraud msg) (l'.view t) := by
  obtain ⟨unmarked, known, out, -⟩ := h
  rw [view_markFraud]
  split
  · next ht =>
    subst ht
    refine .fraud msg rfl unmarked ?_
    unfold footprint at known
    split at known
    · next st hst => exact .inl (by rw [view, hst]; rfl)
    · split at known
      · next apt hapt =>
        exact .inr (.inl (by rw [view]; exact Option.isSome_of_eq_some hapt))
      · split at known
        · next hfrozen => exact .inr (.inr hfrozen)
        · simp at known
  · exact .idle _

/-- **Every step of the ledger is, seen from any task, a step in its life.** -/
theorem LedgerStep.task (h : LedgerStep env height params fees l lab l' out counted) (t : TaskId) :
    TaskStep env height params l.hasAccount t (l.view t) lab (l'.view t) := by
  cases h with
  | idle => exact .idle lab
  | deposit => rw [view_credit]; exact .idle _
  | withdraw => exact .idle _
  | reserve row u _ n res =>
    rw [view_note, view_freeze]
    simp only [Effect.task, Option.some.injEq]
    split
    · next ht =>
      subst ht
      exact .reserved row rfl u n res.user res.unsettled res.unreserved
    · exact .idle _
  | entry step | vote step | fraud step | sweep step => exact step.task t
  | cleanup => rw [view_cleanup]; exact .cleanup
  | fund step =>
    cases step with
    | idle => exact .idle _
    | paid =>
      exact .idle _

end Simulation

/-! ## what the settlement of an audited task leaves alone -/

section Audited
variable {env : Env} {height : Int} {account : Addr → Bool} {v v' : TaskView}

/-- The settlement of an audited task leaves the queues, the mark and the votes
alone; it writes a record exactly when it charges. -/
theorem TaskAudited.effect (h : TaskAudited env height account apt v v' settled) :
    v'.second = v.second ∧ v'.third = v.third ∧ v'.marked = v.marked ∧ v'.votes = v.votes ∧
    ((v'.record = v.record ∧ v'.log = v.log) ∨ settled = true ∧ ∃ asSuccess recorded p,
    v'.record = some (auditRecordOf height apt (chargedStatus asSuccess) recorded) ∧
    v'.log = (height, .settled p) :: v.log) := by
  cases h with
  | marked | stuck | refused => exact ⟨rfl, rfl, rfl, rfl, .inl ⟨rfl, rfl⟩⟩
  | charged _ asSuccess p _ recorded => grind

theorem TaskView.releaseFor_frame (env : Env) (account : Addr → Bool)
    (apt : SecondVerificationPendingTask) (v : TaskView) : v.releaseFor env account apt =
      { v with frozen := (v.releaseFor env account apt).frozen } := by
  unfold releaseFor
  split <;> rfl

theorem TaskAudited.pending (h : TaskAudited env height account apt v v' settled) :
    v'.pending third = v.pending third := by
  obtain ⟨hsecond, hthird, -⟩ := h.effect
  cases third with
  | false => exact hsecond
  | true => exact hthird

end Audited

/-! ## where pending tasks come from -/

section Pending
variable {env : Env} {height : Int} {params : Params} {account : Addr → Bool} {v v' : TaskView}

theorem TaskView.pending_setPending_none (third' : Bool)
    (h : (v.setPending third' none).pending third = some apt) : v.pending third = some apt := by
  cases third' <;> cases third <;> simp_all [setPending, pending]

/-- A judgment leaves a pending task in place or moves it to the third tier. -/
theorem TaskJudged.pending_cases {judged : SecondVerificationPendingTask}
    (h : TaskJudged env height params account ar judged v v') (hapt : v'.pending third = some apt) :
    v.pending third = some apt ∨ third = true ∧ apt = thirdPendingOf height judged := by
  cases h with
  | escalated =>
    cases third with
    | false => simp [pending] at hapt
    | true => exact .inr ⟨rfl, (Option.some.inj hapt).symm⟩
  | tokenFraud step =>
    rw [step.pending, releaseFor_frame] at hapt
    exact .inl (pending_setPending_none false hapt)
  | overturned => exact .inl (pending_setPending_none false hapt)
  | settled step =>
    have h := pending_setPending_none false hapt
    exact .inl (step.pending ▸ h)
  | retained step => exact .inl (step.pending ▸ hapt)

theorem TaskTurns.pending {third' : Bool} {swept : SecondVerificationPendingTask}
    (h : TaskTurns env height account third' swept v v') (hapt : v'.pending third = some apt) :
    v.pending third = some apt := by
  induction h with
  | nil => exact hapt
  | cons turn _ ih =>
    have h := ih hapt
    cases turn with
    | settled step => exact step.pending ▸ pending_setPending_none _ h
    | @failed v₁ step =>
      have h := pending_setPending_none _ h
      have h : v₁.pending third = some apt := h
      exact step.pending ▸ h

/-- **A pending task** was pending before the step, is the entry of the step,
or was moved up from the second tier. -/
theorem TaskStep.pending_cases (h : TaskStep env height params account t v lab v')
    (hapt : v'.pending third = some apt) : v.pending third = some apt ∨
    (∃ e u w, lab = .entry e ∧ e.taskId = t ∧ v.Open env height account e u w ∧ third = false ∧
    apt = pendingOf height e) ∨
    ∃ apt₀, v.second = some apt₀ ∧ third = true ∧ apt = thirdPendingOf height apt₀ := by
  cases h with
  | idle | reserved | refused | unpaid | charged | voted | fraud | cleanup => exact .inl hapt
  | parked e task u w is_open =>
    cases third with
    | false =>
      exact .inr (.inl ⟨e, u, w, rfl, task, is_open, rfl, (Option.some.inj hapt).symm⟩)
    | true => exact .inl hapt
  | judged _ _ judged pending _ step =>
    obtain h | ⟨hthird, h⟩ := step.pending_cases hapt
    · exact .inl h
    · exact .inr (.inr ⟨judged, pending, hthird, h⟩)
  | swept _ _ _ turns => exact .inl (turns.pending hapt)

namespace Ledger

/-- Every task in the audit queues has a property. -/
def AllPending (Q : SecondVerificationPendingTask → Prop) (l : Ledger) : Prop :=
  ∀ third t apt, l.pendingAt third t = some apt → Q apt

theorem AllPending.congr (h : l.AllPending Q) (hqueue : ∀ third, l'.queue third = l.queue third) :
    l'.AllPending Q := by
  intro third t apt hapt
  rw [pendingAt, hqueue] at hapt
  exact h third t apt hapt

end Ledger

/-- A property of pending tasks that survives third verification is kept, when
the entry of the step has it. -/
theorem LedgerStep.allPending {x c : Int} (h : LedgerStep env height params fees l lab l' x c)
    (hentry : ∀ e, lab = .entry e → ∀ u w, Admissible env height l e u w → Q (pendingOf height e))
    (hthird : ∀ apt, Q apt → Q (thirdPendingOf height apt)) (hl : l.AllPending Q) :
    l'.AllPending Q := by
  intro third t apt hapt
  rw [← pending_view] at hapt
  obtain hold | ⟨e, u, w, rfl, rfl, is_open, -, rfl⟩ | ⟨apt₀, hold, -, rfl⟩ :=
    (h.task t).pending_cases hapt
  · exact hl third t apt (pending_view .. ▸ hold)
  · exact hentry e rfl u w is_open.admissible
  · exact hthird apt₀ (hl false t apt₀ hold)

end Pending

end FunaiChain.Settlement
