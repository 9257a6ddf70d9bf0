import FunaiChain.Settlement.Lifecycle

/-!
# FunaiChain.Settlement.Money

What steps of the ledger do to the audit queues and to money.

* `QueueStep`: an entry is parked in the second queue, a task moves on to the
  third, a judged task leaves the second, or a sweep takes the tasks it was given
  from the queue of its tier (`LedgerStep.queues`).
* `MoneyStep`, `MoneyPath`: whatever an entry, a vote or a timeout does, its effect
  on accounts, reservations and log is a path of releases and charges.  A path is
  stated for a property `Fee` of every fee that is charged and a property `Rel` of
  every release.
-/

namespace FunaiChain.Settlement

variable {apt : SecondVerificationPendingTask} {counted : Int}

section
open Ledger

/-! ## queues of a ledger -/

namespace AuditQueue

variable {third : Bool}
variable (q : AuditQueue third)

/-- The deletions of a whole sweep. -/
def finishAll (turns : List (SecondVerificationPendingTask × HeightKey)) : AuditQueue third :=
  turns.foldl (fun q turn => q.finish turn.1.taskId turn.2) q

theorem timeouts_push (apt : SecondVerificationPendingTask) (h : apt.isThirdVerification = third)
    (k : HeightKey) : (q.push apt h).timeouts.get k =
      if ⟨apt.submittedAt, apt.taskId⟩ = k then some () else q.timeouts.get k :=
  Table.get_put ..

theorem timeouts_delete (t : TaskId) (k : HeightKey) : (q.delete t).timeouts.get k =
      if ∃ apt, q.pending.get t = some apt ∧ ⟨apt.submittedAt, t⟩ = k then none
      else q.timeouts.get k := by
  unfold delete
  cases q.pending.get t with
  | none => simp
  | some => simp [Table.get_erase]

theorem timeouts_finish (t : TaskId) (key k : HeightKey) :
    (q.finish t key).timeouts.get k = if key = k then none else q.timeouts.get k :=
  Table.get_erase ..

end AuditQueue

namespace Ledger

variable (l : Ledger) (third : Bool)

theorem queue_setQueue (q : AuditQueue third) : (l.setQueue third q).queue third = q := by
  cases third <;> rfl

theorem queue_setQueue_other (q : AuditQueue third) :
    (l.setQueue third q).queue (!third) = l.queue (!third) := by
  cases third <;> rfl

theorem queue_setSettledTask (st : SettledTaskID) :
    (l.setSettledTask st).queue third = l.queue third := by
  cases third <;> rfl

theorem queue_setSecondVerificationRecord (ar : SecondVerificationRecord) :
    (l.setSecondVerificationRecord ar).queue third = l.queue third := by
  cases third <;> rfl

theorem queue_credit (a : Addr) (x : Int) : (l.credit a x).queue third = l.queue third := by
  unfold credit
  split <;> cases third <;> rfl

theorem queue_markFraud (t : TaskId) : (l.markFraud t).queue third = l.queue third := by
  unfold markFraud
  split
  · split <;> cases third <;> rfl
  · cases third <;> rfl

end Ledger

/-! ## steps -/

theorem pendingOf_second (height : Int) (e : SettlementEntry) :
    (pendingOf height e).isThirdVerification = false := rfl

theorem thirdPendingOf_third (height : Int) (apt : SecondVerificationPendingTask) :
    (thirdPendingOf height apt).isThirdVerification = true := rfl

theorem second_park (height : Int) (l : Ledger) (e : SettlementEntry) :
    (park height l e).second = l.second.push (pendingOf height e) (pendingOf_second height e) :=
  rfl

/-- Every way in which a step of the ledger can change the queues. -/
inductive QueueStep (env : Env) (height : Int) (l : Ledger) (lab : Label) (l' : Ledger) : Prop
  | same (queues : ∀ third, l'.queue third = l.queue third)
  | parked (e : SettlementEntry) (label : lab = .entry e) (u w : Addr)
      (adm : Admissible env height l e u w) (step : l' = park height l e)
  | escalated (apt : SecondVerificationPendingTask)
      (pending : l.pendingAt false apt.taskId = some apt)
      (record : l'.getSettledTask apt.taskId = l.getSettledTask apt.taskId)
      (second : l'.second = l.second.delete apt.taskId)
      (third : l'.third = l.third.push (thirdPendingOf height apt) (thirdPendingOf_third ..))
  | closed (t : TaskId) (second : l'.second = l.second.delete t) (third : l'.third = l.third)
  | swept (third : Bool) (cutoff : Int)
      (queue : l'.queue third = (l.queue third).finishAll (sweepTurns (l.queue third) cutoff))
      (other : l'.queue (!third) = l.queue (!third))

section Steps
variable {env : Env} {height : Int} {params : Params} {l l' : Ledger} {out : Int}

theorem AuditedStep.queue {asSuccess settled : Bool} {override : UInt32}
    (h : AuditedStep env height params apt asSuccess override l l' settled out) (third : Bool) :
    l'.queue third = l.queue third := by
  cases h with
  | marked | stuck => rfl
  | refused => exact l.queue_release _ _ third
  | charged => rw [queue_settle, queue_release]

theorem EntryStep.queues {e : SettlementEntry}
    (h : EntryStep env height params e l l' out counted) :
    QueueStep env height l (.entry e) l' := by
  cases h with
  | skipped => exact .same fun _ => rfl
  | parked u w adm => exact .parked e rfl u w adm rfl
  | refused u => exact .same (l.queue_release u e.taskId)
  | unpaid =>
    exact .same fun third => by rw [queue_setSettledTask, queue_release]
  | charged =>
    exact .same fun third => by rw [queue_settle, queue_release]

/-- A judgment of a task of the second queue. -/
theorem JudgmentStep.queues {ar : SecondVerificationRecord}
    (h : JudgmentStep env height params ar apt l l' out)
    (hapt : l.pendingAt false apt.taskId = some apt) (lab : Label) :
    QueueStep env height l lab l' := by
  cases h with
  | escalated => exact .escalated apt hapt rfl rfl rfl
  | tokenFraud _ _ step =>
    have hrelease := l.queue_releasePending env apt
    refine .closed apt.taskId ((step.queue false).trans ?_) ((step.queue true).trans ?_)
    · exact congrArg (·.delete apt.taskId) (hrelease false)
    · exact hrelease true
  | overturned => exact .closed apt.taskId rfl rfl
  | settled step =>
    exact .closed apt.taskId (congrArg (·.delete apt.taskId) (step.queue false)) (step.queue true)
  | retained step => exact .same step.queue

theorem VoteStep.queues {msg : MsgSecondVerificationResult}
    (h : VoteStep env height params msg l l' out) : QueueStep env height l (.vote msg) l' := by
  cases h with
  | ignored => exact .same fun _ => rfl
  | recorded => exact .same (l.queue_setSecondVerificationRecord · _)
  | judged apt pending _ step =>
    have htask := (l.second.pending.lawful _ _ pending).1
    -- the vote itself changes no queue and no dedup record
    cases step.queues (htask ▸ pending) (.vote msg) with
    | same queues => exact .same fun third => (queues third).trans (by cases third <;> rfl)
    | parked => contradiction
    | escalated apt pending record second third =>
      exact .escalated apt pending record second third
    | closed t second third => exact .closed t second third
    | swept third cutoff queue other =>
      refine .swept third cutoff ?_ ?_
      · rwa [queue_setSecondVerificationRecord] at queue
      · rwa [queue_setSecondVerificationRecord] at other

theorem TimeoutStep.queue {third : Bool} {turn : SecondVerificationPendingTask × HeightKey}
    (h : TimeoutStep env height params third turn l l' out) :
    l'.queue third = (l.queue third).finish turn.1.taskId turn.2 ∧
    l'.queue (!third) = l.queue (!third) := by
  cases h with
  | settled step =>
    rw [finishTimeout, queue_setQueue, queue_setQueue_other, step.queue, step.queue]
    exact ⟨rfl, rfl⟩
  | failed step =>
    rw [finishTimeout, queue_setQueue, queue_setQueue_other,
      queue_setSettledTask, queue_setSettledTask, step.queue, step.queue]
    exact ⟨rfl, rfl⟩

theorem Sweep.queue {third : Bool} {turns : List (SecondVerificationPendingTask × HeightKey)}
    (h : Sweep env height params third turns l l' out) :
    l'.queue third = (l.queue third).finishAll turns ∧ l'.queue (!third) = l.queue (!third) := by
  induction h with
  | nil => exact ⟨rfl, rfl⟩
  | cons step _ ih =>
    obtain ⟨hqueue, hother⟩ := step.queue
    rw [ih.1, ih.2, hqueue, hother]
    exact ⟨rfl, rfl⟩

/-- The sweep of a tier leaves the other queue alone. -/
theorem SweepStep.queue_other {third : Bool} {timeout : Int}
    (h : SweepStep env height params third timeout l l' out) :
    l'.queue (!third) = l.queue (!third) := by
  cases h with
  | early => rfl
  | swept _ turns => exact turns.queue.2

/-- **What a step does to the queues.** -/
theorem LedgerStep.queues {fees : Int → Int} {lab : Label}
    (h : LedgerStep env height params fees l lab l' out counted) :
    QueueStep env height l lab l' := by
  cases h with
  | idle => exact .same fun _ => rfl
  | deposit a x => exact .same (l.queue_credit · a x)
  | withdraw | reserve | cleanup => exact .same fun third => by cases third <;> rfl
  | entry step | vote step => exact step.queues
  | fraud step =>
    obtain ⟨unmarked, known, out, -⟩ := step
    exact .same (l.queue_markFraud · _)
  | sweep step =>
    cases step with
    | early => exact .same fun _ => rfl
    | swept _ turns => exact .swept _ _ turns.queue.1 turns.queue.2
  | fund step =>
    cases step with
    | idle => exact .same fun _ => rfl
    | paid => exact .same fun third => by cases third <;> rfl

end Steps

end

variable {l l' : Ledger} {out : Int} {asSuccess third : Bool} {fees : Int → Int} {lab : Label}

/-- The part of the ledger that accounting looks at. -/
structure MoneyView where
  inferenceAccounts : Table Addr InferenceAccount fun a ia => ia.address = a
  frozenBalance : Store TaskId UInt64
  frozenTaskIndex : Table HeightKey FrozenTaskMeta fun k m =>
    m.expireBlock = k.height ∧ m.taskId = k.taskId
  log : List (Int × Effect)

namespace Ledger

def money (l : Ledger) : MoneyView :=
  ⟨l.inferenceAccounts, l.frozenBalance, l.frozenTaskIndex, l.log⟩

end Ledger

theorem accounts_of_money (money : l'.money = l.money) :
    l'.inferenceAccounts = l.inferenceAccounts := congrArg MoneyView.inferenceAccounts money

variable {env : Env} {height : Int} {params : Params} {Fee : Int → Prop}
  {Rel : Addr → TaskId → Prop}

/-! ## paths of releases and charges -/

section
variable (height : Int) (params : Params) (Fee : Int → Prop) (Rel : Addr → TaskId → Prop)
  (l : Ledger)

/-- A move of money between the accounts and the settlement account. -/
inductive MoneyStep : Ledger → Int → Prop
  | idle {l' : Ledger} (money : l'.money = l.money) : MoneyStep l' 0
  | release (a : Addr) (t : TaskId) (rel : Rel a t) : MoneyStep (l.release a t) 0
  | charge {l' : Ledger} (ia : InferenceAccount) (p : Payment) (fee : Int) (asSuccess : Bool)
      (hfee : Fee fee) (account : l.getInferenceAccount p.user = some ia)
      (charge : Charge params fee ia.balance.amount p asSuccess)
      (money : l'.money = ((l.debit ia p.paid).note height (.settled p)).money) :
      MoneyStep l' (p.verifiers + p.executor)

/-- Moves of money one after the other. -/
inductive MoneyPath : Ledger → Int → Prop
  | refl : MoneyPath l 0
  | tail {l₁ l₂ : Ledger} {x y : Int} (before : MoneyPath l₁ x)
      (step : MoneyStep height params Fee Rel l₁ l₂ y) :
      MoneyPath l₂ (x + y)

end

namespace MoneyPath

theorem idle {l₁ l₂ : Ledger} {x : Int} (h : MoneyPath height params Fee Rel l l₁ x)
    (money : l₂.money = l₁.money) : MoneyPath height params Fee Rel l l₂ x := by
  have := h.tail (.idle money)
  rwa [Int.add_zero] at this

theorem release {l₁ : Ledger} {x : Int} (h : MoneyPath height params Fee Rel l l₁ x) {a : Addr}
    {t : TaskId} (rel : Rel a t) : MoneyPath height params Fee Rel l (l₁.release a t) x := by
  have := h.tail (.release a t rel)
  rwa [Int.add_zero] at this

/-- A release followed by a charge. -/
theorem charged {fee : Int} {ia : InferenceAccount} {p : Payment} {u : Addr} {t : TaskId}
    (rel : Rel u t) (hfee : Fee fee) (user : p.user = u)
    (account : (l.release u t).getInferenceAccount u = some ia)
    (charge : Charge params fee ia.balance.amount p asSuccess) (st : SettledTaskID) :
    MoneyPath height params Fee Rel l ((l.release u t).settle height ia p st)
    (p.verifiers + p.executor) := by
  have hcharge : MoneyStep height params Fee Rel (l.release u t)
      ((l.release u t).settle height ia p st) (p.verifiers + p.executor) :=
    .charge ia p fee asSuccess hfee (user ▸ account) charge rfl
  have := (MoneyPath.refl.release rel).tail hcharge
  rwa [Int.zero_add] at this

theorem trans {l₁ l₂ : Ledger} {x y : Int} (h : MoneyPath height params Fee Rel l l₁ x)
    (h' : MoneyPath height params Fee Rel l₁ l₂ y) :
    MoneyPath height params Fee Rel l l₂ (x + y) := by
  induction h' with
  | refl => rwa [Int.add_zero]
  | tail _ step ih =>
    rw [← Int.add_assoc]
    exact ih.tail step

end MoneyPath

/-! ## the paths of the steps -/

/-- An entry moves money along a path. -/
theorem EntryStep.path {e : SettlementEntry} (h : EntryStep env height params e l l' out counted)
    (hfee : ∀ u w fee, Admissible env height l e u w → actualFee params e = .ok fee →
    Fee fee.amount) (hrel : ∀ u w, Admissible env height l e u w → Rel u e.taskId) :
    MoneyPath height params Fee Rel l l' out := by
  cases h with
  | skipped => exact .refl
  | parked => exact MoneyPath.refl.idle rfl
  | refused u w adm => exact MoneyPath.refl.release (hrel u w adm)
  | unpaid u w adm => exact (MoneyPath.refl.release (hrel u w adm)).idle rfl
  | charged u w adm fee hf _ account _ _ user charge =>
    exact .charged (hrel u w adm) (hfee u w fee adm hf) user account charge _

theorem AuditedStep.path {settled : Bool} {override : UInt32}
    (h : AuditedStep env height params apt asSuccess override l l' settled out)
    (hfee : ∀ fee, auditedFee apt override = .ok fee → Fee fee.amount)
    (hrel : ∀ u, env.accAddressFromBech32 apt.userAddress = some u → Rel u apt.taskId) :
    MoneyPath height params Fee Rel l l' out := by
  cases h with
  | marked | stuck => exact .refl
  | refused _ u user => exact MoneyPath.refl.release (hrel u user)
  | charged _ u user fee hf _ account _ _ payer charge =>
    exact .charged (hrel u user) (hfee fee hf) payer account charge _

/-- What is known of a pending task that a step may settle. -/
structure Settleable (env : Env) (Fee : Int → Prop) (Rel : Addr → TaskId → Prop)
    (apt : SecondVerificationPendingTask) : Prop where
  fee : ∀ override fee, auditedFee apt override = .ok fee → Fee fee.amount
  rel : ∀ u, env.accAddressFromBech32 apt.userAddress = some u → Rel u apt.taskId

theorem releasePending_path (hapt : Settleable env Fee Rel apt) (l : Ledger) :
    MoneyPath height params Fee Rel l (l.releasePending env apt) 0 := by
  unfold Ledger.releasePending
  split
  · exact .refl
  · next u hu => exact MoneyPath.refl.release (hapt.rel u hu)

/-- A judgment moves money along a path. -/
theorem JudgmentStep.path {ar : SecondVerificationRecord}
    (h : JudgmentStep env height params ar apt l l' out) (hapt : Settleable env Fee Rel apt) :
    MoneyPath height params Fee Rel l l' out := by
  cases h with
  | escalated | overturned => exact MoneyPath.refl.idle rfl
  | tokenFraud median _ step =>
    have hfail : MoneyPath height params Fee Rel l
        ((l.releasePending env apt).failPending height apt) 0 :=
      (releasePending_path hapt l).idle rfl
    have := hfail.trans (step.path (hapt.fee median) hapt.rel)
    rwa [Int.zero_add] at this
  | settled step => exact (step.path (hapt.fee 0) hapt.rel).idle rfl
  | retained step => exact step.path (hapt.fee 0) hapt.rel

/-- A vote moves money along a path. -/
theorem VoteStep.path {msg : MsgSecondVerificationResult}
    (h : VoteStep env height params msg l l' out)
    (hapt : ∀ apt, l.pendingAt false msg.taskId = some apt → Settleable env Fee Rel apt) :
    MoneyPath height params Fee Rel l l' out := by
  cases h with
  | ignored => exact .refl
  | recorded => exact MoneyPath.refl.idle rfl
  | judged apt pending _ step =>
    have hvote : MoneyPath height params Fee Rel l (l.setSecondVerificationRecord
        (addVote height msg (l.getSecondVerificationRecord msg.taskId))) 0 :=
      MoneyPath.refl.idle rfl
    have := hvote.trans (step.path (hapt apt pending))
    rwa [Int.zero_add] at this

theorem Ledger.money_finishTimeout (l : Ledger) (third : Bool) (t : TaskId) (key : HeightKey) :
    (l.finishTimeout third t key).money = l.money := by
  cases third <;> rfl

/-- A turn of the timeout sweep moves money along a path. -/
theorem TimeoutStep.path {turn : SecondVerificationPendingTask × HeightKey}
    (h : TimeoutStep env height params third turn l l' out) (hapt : Settleable env Fee Rel turn.1) :
    MoneyPath height params Fee Rel l l' out := by
  cases h with
  | settled step | failed step =>
    exact (step.path (hapt.fee 0) hapt.rel).idle (Ledger.money_finishTimeout ..)

theorem Sweep.path {turns : List (SecondVerificationPendingTask × HeightKey)}
    (h : Sweep env height params third turns l l' out)
    (hapt : ∀ turn ∈ turns, Settleable env Fee Rel turn.1) :
    MoneyPath height params Fee Rel l l' out := by
  induction h with
  | nil => exact .refl
  | cons step _ ih =>
    exact (step.path (hapt _ (.head _))).trans (ih fun turn hturn => hapt turn (.tail _ hturn))

theorem SweepStep.path {timeout : Int} (h : SweepStep env height params third timeout l l' out)
    (hapt : ∀ t apt, l.pendingAt third t = some apt → Settleable env Fee Rel apt) :
    MoneyPath height params Fee Rel l l' out := by
  cases h with
  | early => exact .refl
  | swept _ turns =>
    exact turns.path fun turn hturn => hapt _ _ (mem_sweepTurns hturn)

theorem Ledger.money_markFraud (l : Ledger) (t : TaskId) : (l.markFraud t).money = l.money := by
  unfold markFraud
  split
  · split <;> rfl
  · rfl

/-! ## steps as accounting -/

section
variable (env : Env) (height : Int) (params : Params) (fees : Int → Int) (Fee : Int → Prop)
  (Rel : Addr → TaskId → Prop) (l : Ledger)

/-- A step of the ledger as accounting sees it. -/
inductive AccountStep : Label → Ledger → Int → Prop
  | deposit (a : Addr) (x : Int) (pos : 0 < x) : AccountStep (.deposit a x) (l.credit a x) (-x)
  | withdraw (a : Addr) (x : Int) (pos : 0 < x) (ia : InferenceAccount)
      (account : l.getInferenceAccount a = some ia)
      (covered : x + ia.frozenAmount ≤ ia.balance.amount) :
      AccountStep (.withdraw a x) (l.debit ia x) x
  | reserve (row : ReserveEntry) (u : Addr) (ia : InferenceAccount) (n : UInt64)
      (reservable : Reservable env height l row u ia n) :
      AccountStep (.reserve row) ((l.freeze ia row.taskId n).note height
          (.reserved row.taskId u (MathInt.ofUInt64 n) row.expireBlock)) 0
  | path (lab : Label) {l' : Ledger} {out : Int}
      (path : MoneyPath height params Fee Rel l l' out) :
      AccountStep lab l' out
  /-- A fraud proof: the settlement account may receive a refund. -/
  | refund (lab : Label) {l' : Ledger} (money : l'.money = l.money) (out : Int)
      (refund : out ≤ 0) : AccountStep lab l' out
  | fund (epoch : Int) {l' : Ledger} {out : Int}
      (step : FundStep height params epoch (fees epoch) l l' out) :
      AccountStep (.fund epoch) l' out

end

/-- The steps that may charge somebody. -/
def Label.charges : Label → Bool
  | .entry _ | .vote _ | .sweep _ => true
  | _ => false

theorem LedgerStep.account_of_uncharged (h : LedgerStep env height params fees l lab l' out counted)
    (hlab : lab.charges = false) : AccountStep env height params fees Fee Rel l lab l' out := by
  cases h with
  | idle => exact .path _ .refl
  | deposit a x pos => exact .deposit a x pos
  | withdraw a _ pos ia account covered => exact .withdraw a _ pos ia account covered
  | reserve row u ia n reservable => exact .reserve row u ia n reservable
  | fraud step =>
    obtain ⟨unmarked, known, out, refund⟩ := step
    exact .refund _ (Ledger.money_markFraud ..) out refund
  | cleanup => exact .path _ (MoneyPath.refl.idle rfl)
  | fund step => exact .fund _ step
  | entry | vote | sweep => contradiction

/-- **Every step of the ledger is an accounting step**, when the entry it may
charge and every pending task it may settle have the properties asked for. -/
theorem LedgerStep.account (h : LedgerStep env height params fees l lab l' out counted)
    (hentry : ∀ e, lab = .entry e → ∀ u w, Admissible env height l e u w →
    Rel u e.taskId ∧ ∀ fee, actualFee params e = .ok fee → Fee fee.amount)
    (hpending : ∀ third t apt, l.pendingAt third t = some apt → Settleable env Fee Rel apt) :
    AccountStep env height params fees Fee Rel l lab l' out := by
  cases hlab : lab.charges with
  | false => exact h.account_of_uncharged hlab
  | true =>
    cases h with
    | idle => exact .path _ .refl
    | entry step =>
      exact .path _ (step.path (fun u w fee adm => (hentry _ rfl u w adm).2 fee)
        fun u w adm => (hentry _ rfl u w adm).1)
    | vote step => exact .path _ (step.path fun apt => hpending false _ apt)
    | sweep step => exact .path _ (step.path (hpending _))
    | _ => contradiction

end FunaiChain.Settlement
