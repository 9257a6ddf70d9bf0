import FunaiChain.Settlement.Records
import FunaiChain.Settlement.Balance
import FunaiChain.Settlement.Reservations

/-!
# FunaiChain.Settlement.Underwriting

A reservation should pay for its own task and for no other.  Reserving and
withdrawing look at the balance without what is frozen.  Charging does not: an entry
that has no reservation is paid out of those of other tasks, which then find too
little (`reservation_spent`).

A `Bill` names a task, the user it is charged to and the most it can cost;
`Event.bills` reads the bills of an event off the state before it.  An event pays its
bills one after the other, each by releases and at most one charge, and then does
things that charge nobody (`Performed.pays`).  What a bill asks for beyond the
reservation of its own task has to be available (`Ledger.Covers`).  In a run of such
events no account has less than it has frozen, and every charge is paid in full
(`reservations_underwrite`).
-/

namespace FunaiChain.Settlement

variable {env : Env} {height : Int} {params : Params} {b : Bill} {l : Ledger} {u : Addr}
  {t : TaskId}

section
open Ledger SecondVerificationPendingTask
variable {asSuccess charged third : Bool} {apt : SecondVerificationPendingTask} {fee : Coin}
  {e : SettlementEntry} {override : UInt32} {ia : InferenceAccount}
  {msg : MsgSecondVerificationResult}

/-! ## bills -/

/-- The most that a user can be charged for a task. -/
structure Bill where
  task : TaskId
  user : Addr
  limit : Int
  deriving DecidableEq, Repr

/-- An entry can cost what it names. -/
def SettlementEntry.bill (env : Env) (e : SettlementEntry) : Option Bill :=
  (env.accAddressFromBech32 e.userAddress).map fun u => ⟨e.taskId, u, e.nominal.amount⟩

namespace SecondVerificationPendingTask

/-- The price cap of a task billed per token, the fixed fee of any other. -/
def limit (apt : SecondVerificationPendingTask) : Int :=
  if 0 < apt.feePerInputToken || 0 < apt.feePerOutputToken then apt.maxFee.amount
  else apt.fee.amount

/-- A waiting task can cost its cap, whatever the audit finds. -/
def bill (env : Env) (apt : SecondVerificationPendingTask) : Option Bill :=
  (env.accAddressFromBech32 apt.userAddress).map fun u => ⟨apt.taskId, u, apt.limit⟩

theorem bill_of_user (h : env.accAddressFromBech32 apt.userAddress = some u) :
    apt.bill env = some ⟨apt.taskId, u, apt.limit⟩ := by
  rw [bill, h]
  rfl

end SecondVerificationPendingTask

namespace Ledger

/-- The bill of a task in the second queue. -/
def voteBill (env : Env) (l : Ledger) (t : TaskId) : Option Bill :=
  (l.pendingAt false t).bind (·.bill env)

/-- The turns that the sweep of a tier takes. -/
def dueTurns (l : Ledger) (third : Bool) (cutoff : Int) :
    List (SecondVerificationPendingTask × HeightKey) :=
  if 0 < cutoff then sweepTurns (l.queue third) cutoff else []

/-- The bills of the tasks that the sweep of a tier takes. -/
def dueBills (env : Env) (l : Ledger) (third : Bool) (cutoff : Int) : List Bill :=
  (l.dueTurns third cutoff).filterMap (·.1.bill env)

end Ledger

/-- What an event may charge, read off the chain before it. -/
def Event.bills (env : Env) (c : Chain) : Event → List Bill
  | .endBlock _ =>
      c.state.ledger.dueBills env false (c.ctx.height - c.state.params.timeoutOf false) ++
        c.state.ledger.dueBills env true (c.ctx.height - c.state.params.timeoutOf true)
  | ev =>
      ev.entries.filterMap (·.bill env) ++
        ev.votes.filterMap fun msg => c.state.ledger.voteBill env msg.taskId

/-! ## fees stay under the limit -/

/-- A price per token stays under its cap. -/
theorem perTokenFee_le_cap {inputTokens outputTokens : UInt32}
    {feePerInput feePerOutput cap : UInt64} {maxFee : Int} (hcap : MathInt.uint64 maxFee = .ok cap)
    (h : Coin.new defaultDenom (MathInt.ofUInt64 (calculatePerTokenFee inputTokens outputTokens
    feePerInput feePerOutput cap)) = .ok fee) : fee.amount ≤ maxFee := by
  obtain ⟨-, -, hcap⟩ := MathInt.uint64_eq_ok.mp hcap
  obtain ⟨-, -, rfl⟩ := Coin.new_eq_ok.mp h
  rw [← hcap]
  exact Int.ofNat_le.mpr (UInt64.le_iff_toNat_le.mp (calculatePerTokenFee_le ..))

theorem actualFee_le_nominal (h : actualFee params e = .ok fee) :
    fee.amount ≤ e.nominal.amount := by
  unfold actualFee at h
  unfold SettlementEntry.nominal
  split at h
  · next hper =>
    rw [if_pos hper]
    split at h
    · obtain ⟨cap, hcap, h⟩ := bind_eq_ok.mp h
      exact perTokenFee_le_cap hcap h
    · grind
  · grind

theorem auditedFee_le_limit (h : auditedFee apt override = .ok fee) : fee.amount ≤ apt.limit := by
  unfold auditedFee at h
  unfold limit
  split at h
  · next hper =>
    rw [if_pos hper]
    obtain ⟨cap, hcap, h⟩ := bind_eq_ok.mp h
    exact perTokenFee_le_cap hcap h
  · grind

/-! ## paying -/

section
variable (height : Int) (params : Params) (b : Bill) (l : Ledger)

/-- The ways to pay a bill, with whether it was charged. -/
inductive Spends : Ledger → Bool → Prop
  | refl : Spends l false
  | idle {l₁ l₂ : Ledger} {charged : Bool} (before : Spends l₁ charged)
      (money : l₂.money = l₁.money) : Spends l₂ charged
  | release {l₁ : Ledger} (before : Spends l₁ false) : Spends (l₁.release b.user b.task) false
  | charge {l₁ l₂ : Ledger} (before : Spends l₁ false)
      (unreserved : l₁.frozenBalance.get b.task = none) (ia : InferenceAccount)
      (account : l₁.getInferenceAccount b.user = some ia) (fee : Int) (limit : fee ≤ b.limit)
      (p : Payment) (user : p.user = b.user) (asSuccess : Bool)
      (charge : Charge params fee ia.balance.amount p asSuccess)
      (money : l₂.money = ((l₁.debit ia p.paid).note height (.settled p)).money) :
      Spends l₂ true

end

/-- Bills paid one after the other. -/
inductive Pays (height : Int) (params : Params) : List Bill → Ledger → Ledger → Prop
  | nil {l l' : Ledger} (money : l'.money = l.money) : Pays height params [] l l'
  | cons {b : Bill} {bs : List Bill} {l l₁ l₂ : Ledger} {charged : Bool}
      (step : Spends height params b l l₁ charged) (rest : Pays height params bs l₁ l₂) :
      Pays height params (b :: bs) l l₂

theorem Spends.trans {l₁ l₂ : Ledger} (h : Spends height params b l l₁ false)
    (h' : Spends height params b l₁ l₂ charged) : Spends height params b l l₂ charged := by
  induction h' with
  | refl => exact h
  | idle _ money ih => exact ih.idle money
  | release _ ih => exact ih.release
  | charge _ unreserved ia account fee limit p user asSuccess charge money ih =>
    exact ih.charge unreserved ia account fee limit p user asSuccess charge money

/-- Paying a bill moves money along a path. -/
theorem Spends.path {Rel : Addr → TaskId → Prop} {l' : Ledger}
    (h : Spends height params b l l' charged) (hrel : Rel b.user b.task) :
    ∃ x, MoneyPath height params (fun _ => True) Rel l l' x := by
  induction h with
  | refl => exact ⟨0, .refl⟩
  | idle _ money ih =>
    obtain ⟨x, hpath⟩ := ih
    exact ⟨x, hpath.idle money⟩
  | release _ ih =>
    obtain ⟨x, hpath⟩ := ih
    exact ⟨x, hpath.release hrel⟩
  | charge _ _ ia account fee _ p user asSuccess charge money ih =>
    obtain ⟨x, hpath⟩ := ih
    exact ⟨_, hpath.tail (.charge ia p fee asSuccess trivial (user ▸ account) charge money)⟩

namespace Pays

variable {bs bs' : List Bill} {l₁ l₂ l' : Ledger}

theorem refl (bs : List Bill) (l : Ledger) : Pays height params bs l l := by
  induction bs with
  | nil => exact .nil rfl
  | cons _ _ ih => exact .cons .refl ih

theorem single (h : Spends height params b l l' charged) :
    Pays height params [b] l l' := .cons h (.nil rfl)

/-- What moves no money may come first. -/
theorem of_money (money : l₁.money = l.money) (h : Pays height params bs l₁ l₂) :
    Pays height params bs l l₂ := by
  cases h with
  | nil money' => exact .nil (money'.trans money)
  | cons step rest => exact .cons ((Spends.refl.idle money).trans step) rest

theorem append (h : Pays height params bs l l₁) (h' : Pays height params bs' l₁ l₂) :
    Pays height params (bs ++ bs') l l₂ := by
  induction h with
  | nil money => exact of_money money h'
  | cons step _ ih => exact .cons step (ih h')

/-- The bills of a list of things, one of which comes first. -/
theorem filterMap_cons {α : Type} {f : α → Option Bill} {a : α} {as : List α}
    (h : Pays height params (f a).toList l l₁) (h' : Pays height params (as.filterMap f) l₁ l₂) :
    Pays height params ((a :: as).filterMap f) l l₂ := by
  have happend : (a :: as).filterMap f = (f a).toList ++ as.filterMap f := by grind
  rw [happend]
  exact h.append h'

end Pays

/-! ## the steps pay -/

theorem Ledger.unreserved_release (h : (l.release u t).getInferenceAccount u = some ia) :
    (l.release u t).frozenBalance.get t = none := by
  have haccount : l.hasAccount u = true := by
    rw [← l.hasAccount_release u t, hasAccount, h]
    rfl
  have hview := l.view_release u t t
  rw [if_pos ⟨rfl, haccount⟩] at hview
  exact congrArg TaskView.frozen hview

section Steps
variable {l₀ l' : Ledger} {out : Int}

/-- A release, then the charge. -/
theorem Spends.settle (before : Spends height params b l₀ l false)
    (account : (l.release b.user b.task).getInferenceAccount b.user = some ia) {fee : Int}
    (limit : fee ≤ b.limit) {p : Payment} (user : p.user = b.user)
    (charge : Charge params fee ia.balance.amount p asSuccess) (st : SettledTaskID) :
    Spends height params b l₀ ((l.release b.user b.task).settle height ia p st) true :=
  before.release.charge (unreserved_release account) ia account fee limit p user
    asSuccess charge rfl

/-- An entry pays its bill. -/
theorem EntryStep.pays {counted : Int} (h : EntryStep env height params e l l' out counted) :
    Pays height params (e.bill env).toList l l' := by
  have hbill : ∀ u w, Admissible env height l e u w →
      e.bill env = some ⟨e.taskId, u, e.nominal.amount⟩ := by
    intro u w adm
    rw [SettlementEntry.bill, adm.user]
    rfl
  cases h with
  | skipped => exact .refl _ l
  | parked u w adm =>
    rw [hbill u w adm]
    exact .single (Spends.refl.idle rfl)
  | refused u w adm =>
    rw [hbill u w adm]
    exact .single Spends.refl.release
  | unpaid u w adm =>
    rw [hbill u w adm]
    exact .single (Spends.refl.release.idle rfl)
  | charged u w adm _ hfee _ account _ _ user charge =>
    rw [hbill u w adm]
    exact .single (Spends.refl.settle account (actualFee_le_nominal hfee) user charge _)

theorem AuditedStep.spends {settled : Bool}
    (h : AuditedStep env height params apt asSuccess override l l' settled out)
    (hb : apt.bill env = some b) (before : Spends height params b l₀ l false) :
    ∃ charged, Spends height params b l₀ l' charged := by
  have huser : ∀ u, env.accAddressFromBech32 apt.userAddress = some u →
      b = ⟨apt.taskId, u, apt.limit⟩ := by
    intro u hu
    rw [bill_of_user hu] at hb
    exact (Option.some.inj hb).symm
  cases h with
  | marked | stuck => exact ⟨_, before⟩
  | refused _ u user =>
    obtain rfl := huser u user
    exact ⟨_, before.release⟩
  | charged _ u user _ hfee _ account _ _ payer charge =>
    obtain rfl := huser u user
    exact ⟨_, before.settle account (auditedFee_le_limit hfee) payer charge _⟩

/-- A judgment pays the bill of its task. -/
theorem JudgmentStep.spends {ar : SecondVerificationRecord}
    (h : JudgmentStep env height params ar apt l l' out) (hb : apt.bill env = some b)
    (before : Spends height params b l₀ l false) :
    ∃ charged, Spends height params b l₀ l' charged := by
  cases h with
  | escalated | overturned => exact ⟨_, before.idle rfl⟩
  | tokenFraud _ _ step =>
    have hrelease : Spends height params b l₀ (l.releasePending env apt) false := by
      unfold releasePending
      split
      · exact before
      · next u hu =>
        rw [bill_of_user hu] at hb
        cases hb
        exact before.release
    exact step.spends hb (hrelease.idle rfl)
  | settled step =>
    obtain ⟨charged, hspends⟩ := step.spends hb before
    exact ⟨_, hspends.idle rfl⟩
  | retained step => exact step.spends hb before

/-- A turn of a sweep pays the bill of its task. -/
theorem TimeoutStep.spends {turn : SecondVerificationPendingTask × HeightKey}
    (h : TimeoutStep env height params third turn l l' out) (hb : turn.1.bill env = some b) :
    ∃ charged, Spends height params b l l' charged := by
  cases h with
  | settled step | failed step =>
    obtain ⟨charged, hspends⟩ := step.spends hb .refl
    exact ⟨_, hspends.idle (money_finishTimeout ..)⟩

theorem Sweep.pays {turns : List (SecondVerificationPendingTask × HeightKey)}
    (h : Sweep env height params third turns l l' out)
    (hb : ∀ turn ∈ turns, ∃ b, turn.1.bill env = some b) :
    Pays height params (turns.filterMap (·.1.bill env)) l l' := by
  induction h with
  | nil => exact .nil rfl
  | @cons turn turns l l₁ l₂ x y step rest ih =>
    obtain ⟨b, hturn⟩ := hb turn (.head _)
    obtain ⟨charged, hspends⟩ := step.spends hturn
    refine Pays.filterMap_cons ?_ (ih fun turn hturn => hb turn (.tail _ hturn))
    rw [hturn]
    exact .single hspends

theorem SweepStep.pays {timeout : Int} (h : SweepStep env height params third timeout l l' out)
    (hb : ∀ t apt, l.pendingAt third t = some apt → ∃ b, apt.bill env = some b) :
    Pays height params (l.dueBills env third (height - timeout)) l l' := by
  unfold dueBills dueTurns
  cases h with
  | early young =>
    rw [if_neg (Int.not_lt.mpr young)]
    exact .nil rfl
  | swept old turns =>
    rw [if_pos old]
    exact turns.pays fun turn hturn => hb _ _ (mem_sweepTurns hturn)

/-- An audit result pays the bill that its task had before. -/
theorem VoteStep.pays (h : VoteStep env height params msg l l' out)
    (hsame : ∀ apt, l.pendingAt false msg.taskId = some apt →
    l₀.pendingAt false msg.taskId = some apt)
    (hb : ∀ t apt, l₀.pendingAt false t = some apt → ∃ b, apt.bill env = some b) :
    Pays height params (l₀.voteBill env msg.taskId).toList l l' := by
  cases h with
  | ignored => exact .refl _ l
  | recorded =>
    exact .of_money (by rfl) (.refl _ _)
  | judged apt pending _ step =>
    have hpending := hsame apt pending
    obtain ⟨b, hbill⟩ := hb _ apt hpending
    rw [voteBill, hpending, Option.bind_some, hbill]
    have hvote : Spends height params b l (l.setSecondVerificationRecord
        (addVote height msg (l.getSecondVerificationRecord msg.taskId))) false :=
      Spends.refl.idle rfl
    obtain ⟨charged, hspends⟩ := step.spends hbill hvote
    exact .single hspends

end Steps

/-! ## events pay -/

section Events
variable {fees : Int → Int} {l' : Ledger} {x c : Int}

theorem Steps.pays_entries {entries : List SettlementEntry}
    (h : Steps env height params fees (entries.map .entry) l l' x c) :
    Pays height params (entries.filterMap (·.bill env)) l l' := by
  induction entries generalizing l x c with
  | nil =>
    rw [h.eq_of_nil]
    exact .nil rfl
  | cons _ _ ih =>
    cases h with
    | cons step rest =>
      refine Pays.filterMap_cons ?_ (ih rest)
      cases step with
      | idle => exact .refl _ _
      | entry step => exact step.pays

/-- A vote brings no task into the second queue. -/
theorem TaskStep.second_of_vote {account : Addr → Bool} {v v' : TaskView}
    (h : TaskStep env height params account t v (.vote msg) v') (hapt : v'.second = some apt) :
    v.second = some apt := by
  have hpending : v'.pending false = some apt := hapt
  obtain hold | ⟨e, u, w, hlab, -⟩ | ⟨apt₀, -, hthird, -⟩ := h.pending_cases hpending
  · exact hold
  · contradiction
  · contradiction

theorem Steps.pays_votes {votes : List MsgSecondVerificationResult} {l₀ : Ledger}
    (h : Steps env height params fees (votes.map .vote) l l' x c)
    (hsame : ∀ t apt, l.pendingAt false t = some apt → l₀.pendingAt false t = some apt)
    (hb : ∀ t apt, l₀.pendingAt false t = some apt → ∃ b, apt.bill env = some b) :
    Pays height params (votes.filterMap fun msg => l₀.voteBill env msg.taskId) l l' := by
  induction votes generalizing l x c with
  | nil =>
    rw [h.eq_of_nil]
    exact .nil rfl
  | cons msg _ ih =>
    cases h with
    | cons step rest =>
      refine Pays.filterMap_cons ?_
        (ih rest fun t apt hapt => hsame t apt ((step.task t).second_of_vote hapt))
      cases step with
      | idle => exact .refl _ _
      | vote step => exact step.pays (hsame msg.taskId) hb

theorem Ledger.dueBills_congr (h : l'.queue third = l.queue third) (cutoff : Int) :
    l'.dueBills env third cutoff = l.dueBills env third cutoff := by
  unfold dueBills dueTurns
  rw [h]

/-- The sweep of a tier pays for what is due, and leaves the other tier. -/
theorem LedgerStep.pays_sweep (h : LedgerStep env height params fees l (.sweep third) l' x c)
    (hb : ∀ t apt, l.pendingAt third t = some apt → ∃ b, apt.bill env = some b) :
    Pays height params (l.dueBills env third (height - params.timeoutOf third)) l l' ∧
    l'.queue (!third) = l.queue (!third) := by
  cases h with
  | idle => exact ⟨.refl _ l, rfl⟩
  | sweep step => exact ⟨step.pays hb, step.queue_other⟩

/-- The clean-up and the sweeps of a block pay for what is due when it ends. -/
theorem Steps.pays_block
    (h : Steps env height params fees [.cleanup, .sweep false, .sweep true] l l' x c)
    (hb : ∀ third t apt, l.pendingAt third t = some apt → ∃ b, apt.bill env = some b) :
    Pays height params (l.dueBills env false (height - params.timeoutOf false) ++
    l.dueBills env true (height - params.timeoutOf true)) l l' := by
  obtain ⟨l₁, _, _, _, _, clean, rest⟩ := h.of_cons
  obtain ⟨l₂, _, _, _, _, second, rest⟩ := rest.of_cons
  obtain ⟨l₃, _, _, _, _, third, rest⟩ := rest.of_cons
  obtain rfl := rest.eq_of_nil
  have hmoney : l₁.money = l.money := by
    cases clean <;> rfl
  have hqueue : ∀ third, l₁.queue third = l.queue third := by
    intro third
    cases clean <;> cases third <;> rfl
  have hb₁ : ∀ third t apt, l₁.pendingAt third t = some apt → ∃ b, apt.bill env = some b := by
    intro third t apt hapt
    rw [pendingAt, hqueue] at hapt
    exact hb third t apt hapt
  obtain ⟨hsecond, hother⟩ := second.pays_sweep (hb₁ false)
  have hother : l₂.queue true = l₁.queue true := hother
  have hthird := (third.pays_sweep fun t apt hapt => by
    rw [pendingAt, hother] at hapt
    exact hb₁ true t apt hapt).1
  rw [dueBills_congr (hqueue false)] at hsecond
  rw [dueBills_congr (hother.trans (hqueue true))] at hthird
  exact .of_money hmoney (hsecond.append hthird)

end Events

/-- **An event pays its bills**, and then does what charges nobody. -/
theorem Performed.pays {c c' : Chain} {ev : Event} {x y : Int} (hp : Performed env ev c c' x y)
    (hclaimed : c.state.ledger.Claimed env) :
    ∃ l labs z d, Pays c.ctx.height c.state.params (ev.bills env c) c.state.ledger l ∧
    Steps env c.ctx.height c.state.params c.state.book.fees labs l c'.state.ledger z d ∧
    ∀ lab ∈ labs, lab.charges = false := by
  have hb : ∀ third t apt, c.state.ledger.pendingAt third t = some apt →
      ∃ b, apt.bill env = some b := by
    intro third t apt hapt
    obtain ⟨u, w, hu, -, -⟩ := hclaimed third t apt hapt
    exact ⟨_, bill_of_user hu⟩
  have hsteps := hp.steps
  cases ev with
  | endBlock =>
    obtain ⟨l, z, z', d, d', hblock, hclosing, -, -⟩ := hsteps.of_append
    refine ⟨l, _, z', d', hblock.pays_block hb, hclosing, fun lab hlab => ?_⟩
    rw [(Ctx.mem_closing hlab).1]
    rfl
  | outside => exact ⟨_, _, _, _, .nil rfl, hsteps, by simp [Event.script]⟩
  | tx msg =>
    -- a transaction that settles nothing has no bills
    have hnothing : (Event.tx msg).bills env c = [] →
        (∀ lab ∈ msg.script env, lab.charges = false) →
        ∃ l labs z d, Pays c.ctx.height c.state.params ((Event.tx msg).bills env c)
          c.state.ledger l ∧
          Steps env c.ctx.height c.state.params c.state.book.fees labs l c'.state.ledger z d ∧
          ∀ lab ∈ labs, lab.charges = false := by
      intro hbills hlabs
      rw [hbills]
      exact ⟨_, _, _, _, .nil rfl, hsteps, hlabs⟩
    cases msg with
    | batchSettlement msg =>
      have hbills : (Event.tx (.batchSettlement msg)).bills env c =
          msg.entries.filterMap (·.bill env) := List.append_nil _
      rw [hbills]
      exact ⟨_, [], 0, 0, Steps.pays_entries hsteps, .nil _, by simp⟩
    | secondVerificationResult msg =>
      have hvotes : Steps env c.ctx.height c.state.params c.state.book.fees
          ([msg].map .vote) c.state.ledger c'.state.ledger x y := hsteps
      exact ⟨_, [], 0, 0, hvotes.pays_votes (fun _ _ h => h) (hb false), .nil _, by simp⟩
    | secondVerificationResultBatch msg =>
      have hvotes : Steps env c.ctx.height c.state.params c.state.book.fees
          ((msg.entries.map (·.single)).map .vote) c.state.ledger c'.state.ledger x y := by
        rw [List.map_map]
        exact hsteps
      exact ⟨_, [], 0, 0, hvotes.pays_votes (fun _ _ h => h) (hb false), .nil _, by simp⟩
    | deposit | withdraw | batchReserve | fraudProof =>
      exact hnothing rfl (by simp [Msg.script, Label.charges])

end

open Ledger
variable {fees : Int → Int} {l' : Ledger} {ev : Event}

/-! ## available and reserved amounts -/

namespace Ledger

/-- What an account has beyond its frozen balance. -/
def available (l : Ledger) (a : Addr) : Int := l.balanceOf a - (l.frozenCoin a).amount

/-- No account has less than it has frozen. -/
def Solvent (l : Ledger) : Prop := ∀ a, 0 ≤ l.available a

/-- No charge fell short. -/
def PaidInFull (l : Ledger) : Prop := ∀ height p, (height, .settled p) ∈ l.log → p.paid = p.due

/-- The amount reserved for a task. -/
def own (l : Ledger) (t : TaskId) : Int := (l.frozenBalance.get t).elim 0 MathInt.ofUInt64

theorem own_nonneg (l : Ledger) (t : TaskId) : 0 ≤ l.own t := by
  unfold own
  cases l.frozenBalance.get t with
  | none => exact Int.le_refl 0
  | some n => exact MathInt.ofUInt64_nonneg n

theorem own_of_none (h : l.frozenBalance.get t = none) : l.own t = 0 := by
  rw [own, h]
  rfl

theorem own_of_some {n : UInt64} (h : l.frozenBalance.get t = some n) :
    l.own t = MathInt.ofUInt64 n := by
  rw [own, h]
  rfl

theorem own_congr (h : l'.frozenBalance.get t = l.frozenBalance.get t) : l'.own t = l.own t := by
  rw [own, h, own]

theorem own_of_holds (h : (l.view t).Holds (l'.view t)) : l'.own t = 0 ∨ l'.own t = l.own t :=
  h.frozen.imp own_of_none own_congr

theorem available_congr (h : l'.inferenceAccounts = l.inferenceAccounts) (a : Addr) :
    l'.available a = l.available a := by
  rw [available, balanceOf_congr h, frozenCoin_congr h, available]

theorem available_debit {a : Addr} {ia : InferenceAccount}
    (h : l.getInferenceAccount a = some ia) (x : Int) (b : Addr) :
    (l.debit ia x).available b = if a = b then l.available b - x else l.available b := by
  unfold available
  rw [balanceOf_debit h, frozenCoin_debit h]
  split <;> omega

/-- A release for the owner makes the amount available. -/
theorem Held.available_release (h : l.Held) (howed : l.Owed u t) :
    (l.release u t).available u + (l.release u t).own t = l.available u + l.own t ∧
    ∀ a, u ≠ a → (l.release u t).available a = l.available a := by
  obtain ⟨hr, -⟩ | ⟨n, ia, hn, hia, hr⟩ := release_cases l u t
  · grind
  have hcovers := h.covers hn (howed.resolve_left (by simp [hn]))
  have hown : (l.releaseFrom ia n t).own t = 0 := own_of_none (Table.get_erase_self ..)
  have hbalance := l.balanceOf_release u t
  rw [hr] at hbalance ⊢
  unfold available
  constructor
  · rw [hown, own_of_some hn, hbalance, frozenCoin_releaseFrom hia, if_pos rfl]
    dsimp only
    omega
  · intro a ha
    rw [hbalance, frozenCoin_releaseFrom hia, if_neg ha]

theorem own_release {t' : TaskId} (h : t ≠ t') : (l.release u t).own t' = l.own t' := by
  have hview := l.view_release u t t'
  rw [if_neg fun hc => h hc.1] at hview
  exact own_congr (congrArg TaskView.frozen hview)

end Ledger

/-! ## what paying a bill takes -/

/-- What paying a bill takes: before the charge the released amount is
available, and the charge takes at most the limit from there. -/
structure Spent (b : Bill) (l l' : Ledger) (charged : Bool) : Prop where
  own : ∀ t, b.task ≠ t → l'.own t = l.own t
  others : ∀ a, b.user ≠ a → l'.available a = l.available a
  kept : charged = false → l'.available b.user + l'.own b.task = l.available b.user + l.own b.task
  taken : charged = true → l.available b.user + l.own b.task ≤ l'.available b.user + max 0 b.limit
  paid : l.PaidInFull → l'.PaidInFull

theorem Ledger.PaidInFull.congr (h : l.PaidInFull) (hlog : l'.log = l.log) : l'.PaidInFull := by
  intro height p hp
  rw [hlog] at hp
  exact h height p hp

theorem Spends.spent {charged : Bool} (h : Spends height params b l l' charged)
    (hvalid : params.validate = none) (hl : l.Held) (howed : l.Owed b.user b.task)
    (hcover : max 0 b.limit ≤ l.available b.user + l.own b.task) : Spent b l l' charged := by
  induction h with
  | refl => exact ⟨fun _ _ => rfl, fun _ _ => rfl, fun _ => rfl, nofun, id⟩
  | @idle l₁ l₂ charged before money ih =>
    have hown : ∀ t, l₂.own t = l₁.own t := fun t =>
      own_congr (congrArg (·.frozenBalance.get t) money)
    have havailable := available_congr (accounts_of_money money)
    refine ⟨fun t ht => (hown t).trans (ih.own t ht),
      fun a ha => (havailable a).trans (ih.others a ha), fun hc => ?_, fun hc => ?_,
      fun hp => (ih.paid hp).congr (congrArg MoneyView.log money)⟩
    · rw [havailable, hown, ih.kept hc]
    · rw [havailable]
      exact ih.taken hc
  | @release l₁ before ih =>
    obtain ⟨x, hpath⟩ := before.path howed
    obtain ⟨hu, hothers⟩ := (hpath.held hl).available_release (howed.of_holds (hpath.holds b.task))
    refine ⟨fun t ht => (own_release ht).trans (ih.own t ht),
      fun a ha => (hothers a ha).trans (ih.others a ha), fun hc => hu.trans (ih.kept hc), nofun,
      fun hp => (ih.paid hp).congr (log_release ..)⟩
  | @charge l₁ l₂ before unreserved ia account fee limit p user asSuccess charge money ih =>
    obtain ⟨x, hpath⟩ := before.path howed
    have hown : ∀ t, l₂.own t = l₁.own t := fun t =>
      own_congr (congrArg (·.frozenBalance.get t) money)
    have havailable : ∀ a, l₂.available a = (l₁.debit ia p.paid).available a :=
      available_congr (congrArg MoneyView.inferenceAccounts money)
    obtain ⟨hpaid, hdue⟩ := charge.bounded hvalid limit
    -- the reservation is released, so the balance covers what is due
    have hkept := ih.kept rfl
    rw [own_of_none unreserved] at hkept
    have hfrozen : 0 ≤ (l₁.frozenCoin b.user).amount := by
      rw [(hpath.held hl).sum]
      exact Table.sum_nonneg (l₁.reservedPart_nonneg b.user)
    have hbalance : l₁.available b.user = ia.balance.amount - (l₁.frozenCoin b.user).amount := by
      rw [available, balanceOf_of_get account]
    refine ⟨fun t ht => (hown t).trans (ih.own t ht), fun a ha => ?_, nofun, fun _ => ?_,
      fun hp => ?_⟩
    · rw [havailable, available_debit account, if_neg ha, ih.others a ha]
    · rw [havailable, available_debit account, if_pos rfl]
      omega
    · intro height' p' hp'
      have hlog : l₂.log = (height, .settled p) :: l₁.log := congrArg MoneyView.log money
      rw [hlog] at hp'
      obtain heq | hold := List.mem_cons.mp hp'
      · grind
      · exact ih.paid hp height' p' hold

/-! ## bills that are covered -/

namespace Ledger

/-- What a bill asks for beyond the reservation of its task. -/
def excess (l : Ledger) (b : Bill) : Int := max 0 (b.limit - l.own b.task)

/-- What bills ask a user for beyond reservations. -/
def owes (l : Ledger) (bs : List Bill) (a : Addr) : Int :=
  (bs.map fun b => if b.user = a then l.excess b else 0).sum

/-- Every user has available what their bills ask for beyond reservations, and
no reservation stands behind two bills. -/
@[mk_iff]
structure Covers (l : Ledger) (bs : List Bill) : Prop where
  fits : ∀ b ∈ bs, l.owes bs b.user ≤ l.available b.user
  apart : bs.Pairwise fun b b' => b.task = b'.task → l.frozenBalance.get b.task = none

instance (l : Ledger) (bs : List Bill) : Decidable (l.Covers bs) :=
  decidable_of_iff' _ (covers_iff ..)

theorem owes_cons (l : Ledger) (b : Bill) (bs : List Bill) (a : Addr) :
    l.owes (b :: bs) a = (if b.user = a then l.excess b else 0) + l.owes bs a := by
  rfl

theorem excess_nonneg (l : Ledger) (b : Bill) : 0 ≤ l.excess b := le_max_left ..

theorem owes_nonneg (l : Ledger) (bs : List Bill) (a : Addr) : 0 ≤ l.owes bs a := by
  refine List.sum_nonneg fun x hx => ?_
  obtain ⟨b, -, rfl⟩ := List.mem_map.mp hx
  split
  · exact l.excess_nonneg b
  · exact Int.le_refl 0

theorem owes_congr {bs : List Bill} (h : ∀ b ∈ bs, l'.own b.task = l.own b.task) (a : Addr) :
    l'.owes bs a = l.owes bs a := by
  refine congrArg List.sum (List.map_congr_left fun b hb => ?_)
  rw [excess, h b hb, excess]

end Ledger

section Pays
variable {bs : List Bill} {charged : Bool}

/-- A bill takes no more from what is available than what it asks for beyond
its reservation. -/
theorem Spent.available_ge (h : Spent b l l' charged)
    (hholds : (l.view b.task).Holds (l'.view b.task))
    (a : Addr) : l.available a - (if b.user = a then l.excess b else 0) ≤ l'.available a := by
  have hexcess : max 0 b.limit ≤ l.own b.task + l.excess b := by
    have := l.own_nonneg b.task
    unfold excess
    omega
  split
  · next ha =>
    subst ha
    cases charged with
    | false =>
      have hkept := h.kept rfl
      have hnn := l.excess_nonneg b
      have hown := l.own_nonneg b.task
      obtain hnone | hsame := own_of_holds hholds <;> omega
    | true =>
      have htaken := h.taken rfl
      omega
  · next ha =>
    rw [h.others a ha]
    omega

/-- The bills that are left stay covered. -/
theorem Spent.covers (h : Spent b l l' charged) (hholds : ∀ t, (l.view t).Holds (l'.view t))
    (hcovers : l.Covers (b :: bs)) : l'.Covers bs := by
  obtain ⟨hapart, hrest⟩ := List.pairwise_cons.mp hcovers.apart
  have hown : ∀ b' ∈ bs, l'.own b'.task = l.own b'.task := by
    intro b' hb'
    by_cases ht : b.task = b'.task
    · -- the task had no reservation to release
      have hzero := own_of_none (hapart b' hb' ht)
      have hafter := own_of_holds (hholds b.task)
      rw [← ht]
      omega
    · exact h.own b'.task ht
  refine ⟨fun b' hb' => ?_, hrest.imp fun {b₁ b₂} hnone ht => ?_⟩
  · have hfits := hcovers.fits b' (.tail _ hb')
    have havailable := h.available_ge (hholds b.task) b'.user
    rw [owes_cons] at hfits
    rw [owes_congr hown]
    omega
  · obtain hgone | hsame := (hholds b₁.task).frozen
    · exact hgone
    · exact Eq.trans hsame (hnone ht)

/-- **Covered bills are paid in full**, and leave every account what it has
frozen. -/
theorem Pays.underwritten (h : Pays height params bs l l') (hvalid : params.validate = none)
    (hl : l.Held) (howed : ∀ b ∈ bs, l.Owed b.user b.task) (hcovers : l.Covers bs)
    (hsolvent : l.Solvent) (hpaid : l.PaidInFull) : l'.Held ∧ l'.Solvent ∧ l'.PaidInFull := by
  induction h with
  | nil money =>
    refine ⟨(MoneyStep.idle money : MoneyStep height params (fun _ => True) _ _ _ 0).held
      (fun _ _ howed => howed) hl, fun a => ?_, hpaid.congr (congrArg MoneyView.log money)⟩
    rw [available_congr (accounts_of_money money)]
    exact hsolvent a
  | @cons b bs l l₁ l₂ charged step rest ih =>
    obtain ⟨x, hpath⟩ := step.path (howed b (.head _))
    have hfits := hcovers.fits b (.head _)
    have hrest := l.owes_nonneg bs b.user
    have hown := l.own_nonneg b.task
    rw [owes_cons, if_pos rfl] at hfits
    have hspent : Spent b l l₁ charged := by
      refine step.spent hvalid hl (howed b (.head _)) ?_
      unfold excess at hfits
      omega
    refine ih (hpath.held hl) (fun b' hb' => ?_) (hspent.covers hpath.holds hcovers)
      (fun a => ?_) (hspent.paid hpaid)
    · exact (howed b' (.tail _ hb')).of_holds (hpath.holds b'.task)
    · have hge := hspent.available_ge (hpath.holds b.task) a
      have ha := hsolvent a
      split at hge
      · grind
      · omega

end Pays

/-! ## steps that charge nobody -/

section Steps
variable {lab : Label} {x c : Int}

variable (h : LedgerStep env height params fees l lab l' x c) (hlab : lab.charges = false)
include h hlab

/-- Deposits, withdrawals and reservations look at what is available. -/
theorem LedgerStep.solvent_of_uncharged (hl : l.Held) (hsolvent : l.Solvent) : l'.Solvent := by
  intro b
  have hb := hsolvent b
  cases h with
  | idle => exact hb
  | deposit =>
    unfold available at hb ⊢
    rw [balanceOf_credit, frozenCoin_credit]
    split <;> omega
  | withdraw a _ _ _ account covered =>
    rw [available_debit account]
    split
    · next hab =>
      subst hab
      have hcoin := hl.coin a
      rw [frozenCoin_of_get account] at hcoin
      rw [frozenAmount_of_coin hcoin] at covered
      rw [available, balanceOf_of_get account, frozenCoin_of_get account]
      omega
    · exact hb
  | reserve row _ ia n res =>
    have hcovered := res.covered
    rw [available_congr (by rfl : _ = (l.freeze ia row.taskId n).inferenceAccounts)]
    unfold available at hb ⊢
    rw [balanceOf_freeze res.account, frozenCoin_freeze res.account]
    split
    · next hub =>
      subst hub
      rw [balanceOf_of_get res.account]
      dsimp only
      omega
    · exact hb
  | entry | vote => contradiction
  | fraud step =>
    obtain ⟨unmarked, known, out, refund⟩ := step
    rw [available_congr (accounts_of_money (l.money_markFraud _))]
    exact hb
  | cleanup => exact hb
  | sweep => contradiction
  | fund step =>
    cases step with
    | idle | paid => exact hb

theorem LedgerStep.paid_of_uncharged (hpaid : l.PaidInFull) : l'.PaidInFull := by
  cases h with
  | idle => exact hpaid
  | deposit =>
    refine hpaid.congr ?_
    unfold credit
    split <;> rfl
  | withdraw | cleanup => exact hpaid.congr rfl
  | reserve =>
    intro height p hp
    obtain heq | hold := List.mem_cons.mp hp
    · simp at heq
    · exact hpaid height p hold
  | entry | vote => contradiction
  | fraud step =>
    obtain ⟨unmarked, known, out, refund⟩ := step
    exact hpaid.congr (congrArg MoneyView.log (l.money_markFraud _))
  | sweep => contradiction
  | fund step =>
    cases step with
    | idle => exact hpaid
    | paid =>
      intro height p hp
      obtain heq | hold := List.mem_cons.mp hp
      · simp at heq
      · exact hpaid height p hold

end Steps

/-! ## runs -/

/-- The batches of an event name the owners of the reservations they are about,
and its bills are covered. -/
@[mk_iff]
structure Underwritten (env : Env) (c : Chain) (ev : Event) : Prop where
  owned : OwnedBatches env c ev
  covered : c.state.ledger.Covers (ev.bills env c)

instance (env : Env) (c : Chain) (ev : Event) : Decidable (Underwritten env c ev) :=
  decidable_of_iff' _ (underwritten_iff ..)

theorem SecondVerificationPendingTask.owed_of_bill (hl : l.Reserved env) {third : Bool}
    {apt : SecondVerificationPendingTask} (hapt : l.pendingAt third t = some apt)
    (hb : apt.bill env = some b) : l.Owed b.user b.task := by
  obtain ⟨u, hu, rfl⟩ := Option.map_eq_some_iff.mp hb
  have howed := hl.pending third t apt hapt u hu
  rw [← (pending_of_get hapt).1] at howed
  exact howed

/-- The bills of an event go to the owners of the reservations. -/
theorem Event.bills_owed {c : Chain} (hl : c.state.ledger.Reserved env)
    (hev : OwnedBatches env c ev) (hb : b ∈ ev.bills env c) :
    c.state.ledger.Owed b.user b.task := by
  have hdue : ∀ third cutoff, b ∈ c.state.ledger.dueBills env third cutoff →
      c.state.ledger.Owed b.user b.task := by
    intro third cutoff hmem
    obtain ⟨turn, hturn, hbill⟩ := List.mem_filterMap.mp hmem
    unfold dueTurns at hturn
    split at hturn
    · exact SecondVerificationPendingTask.owed_of_bill hl (mem_sweepTurns hturn) hbill
    · simp at hturn
  have hother : b ∈ ev.entries.filterMap (·.bill env) ++
      ev.votes.filterMap (fun msg => c.state.ledger.voteBill env msg.taskId) →
      c.state.ledger.Owed b.user b.task := by
    intro hmem
    obtain hmem | hmem := List.mem_append.mp hmem
    · obtain ⟨e, he, hbill⟩ := List.mem_filterMap.mp hmem
      obtain ⟨u, hu, rfl⟩ := Option.map_eq_some_iff.mp hbill
      exact hev.entry e he u hu
    · obtain ⟨msg, -, hbill⟩ := List.mem_filterMap.mp hmem
      obtain ⟨apt, hapt, hbill⟩ := Option.bind_eq_some_iff.mp hbill
      exact SecondVerificationPendingTask.owed_of_bill hl hapt hbill
  cases ev with
  | endBlock => exact (List.mem_append.mp hb).elim (hdue _ _) (hdue _ _)
  | tx | outside => exact hother hb

theorem Ledger.Initial.solvent (h : l.Initial) : l.Solvent := by
  intro a
  cases hia : l.getInferenceAccount a with
  | none => simp [available, balanceOf, frozenCoin, hia, Coin.zero]
  | some ia =>
    obtain ⟨-, hnn, hfrozen⟩ := h.account a ia hia
    rw [available, balanceOf_of_get hia, frozenCoin_of_get hia, hfrozen]
    exact Int.sub_nonneg.mpr hnn

theorem Performed.underwritten {c c' : Chain} {x y : Int} (hp : Performed env ev c c' x y)
    (hwf : WellFormed env c.state) (hclaimed : c.state.ledger.Claimed env)
    (hreserved : c.state.ledger.Reserved env) (hev : Underwritten env c ev)
    (hsolvent : c.state.ledger.Solvent) (hpaid : c.state.ledger.PaidInFull) :
    c'.state.ledger.Solvent ∧ c'.state.ledger.PaidInFull := by
  obtain ⟨l, labs, z, d, hpays, hrest, hlabs⟩ := hp.pays hclaimed
  have hl := hpays.underwritten hwf.params hreserved.toHeld
    (fun b hb => Event.bills_owed hreserved hev.owned hb) hev.covered hsolvent hpaid
  refine (hrest.invariant (I := fun l => l.Held ∧ l.Solvent ∧ l.PaidInFull) hl ?_).2
  intro lab hlab l l' x y hl hstep
  have hquiet := hlabs lab hlab
  have haccount : AccountStep env c.ctx.height c.state.params c.state.book.fees (fun _ => True)
      l.Owed l lab l' x := hstep.account_of_uncharged hquiet
  exact ⟨haccount.held hl.1, hstep.solvent_of_uncharged hquiet hl.1 hl.2.1,
    hstep.paid_of_uncharged hquiet hl.2.2⟩

/-- **Reservations underwrite their own tasks**, in a run of covered events: no
account has less than it has frozen, and no charge falls short. -/
theorem reservations_underwrite {c₀ c : Chain} (hgenesis : AtGenesis env c₀)
    (run : Run env (Underwritten env) c₀ c) :
    (∀ a ia, c.state.ledger.getInferenceAccount a = some ia →
      ia.frozenBalance.amount ≤ ia.balance.amount) ∧
    ∀ height p, (height, .settled p) ∈ c.state.ledger.log → p.paid = p.due := by
  have hall : c.state.ledger.Claimed env ∧ c.state.ledger.Reserved env ∧
      c.state.ledger.Solvent ∧ c.state.ledger.PaidInFull := by
    refine run.preserves hgenesis (I := fun c => c.state.ledger.Claimed env ∧
      c.state.ledger.Reserved env ∧ c.state.ledger.Solvent ∧ c.state.ledger.PaidInFull)
      ⟨Run.claimed (P := fun _ _ => True) hgenesis .start, hgenesis.initial.reserved, ?_, ?_⟩ ?_
    · exact hgenesis.initial.solvent
    · intro height p hp
      rw [hgenesis.initial.only] at hp
      contradiction
    · intro c ev c' x y hwf ⟨hclaimed, hreserved, hsolvent, hpaid⟩ hev hp
      exact ⟨hp.steps.invariant hclaimed fun _ _ _ _ _ _ hl hstep => hstep.claimed hl,
        hp.steps.reserved hev.owned hreserved,
        hp.underwritten hwf hclaimed hreserved hev hsolvent hpaid⟩
  refine ⟨fun a ia hia => ?_, hall.2.2.2⟩
  have hsolvent := hall.2.2.1 a
  rw [available, balanceOf_of_get hia, frozenCoin_of_get hia] at hsolvent
  omega

/-- A batch settles a reserved task and one that the rest of the balance covers:
both are paid in full, and what is reserved for a third task stays. -/
theorem reservations_underwrite_devnet :
    ∃ c, Run devEnv (Underwritten devEnv) (devnet .default [("user", 1000)]) c ∧
      (∃ ia ∈ c.state.ledger.getInferenceAccount (devAddr "user"),
        ia.balance.amount = 250 ∧ ia.frozenBalance.amount ≤ 250) ∧
      ∀ height p, (height, .settled p) ∈ c.state.ledger.log → p.paid = p.due := by
  refine exists_and_imp (q := fun c =>
      ∃ ia ∈ c.state.ledger.getInferenceAccount (devAddr "user"), ia.balance.amount = 250)
    (Run.exists_of_exec [devReserve [devRow [255] "user" 600 0, devRow [254] "user" 200 0],
        devBatch [devEntry [255] "user" 600 0, devEntry [253] "user" 150 0]]
      (by decide +kernel)) ?_
  rintro c run ⟨ia, account, hbalance⟩
  obtain ⟨hfrozen, hpaid⟩ := reservations_underwrite atGenesis_user run
  exact ⟨⟨ia, account, hbalance, hbalance ▸ hfrozen _ ia account⟩, hpaid⟩

/-- An entry without reservation takes 900 of a balance of 1000 of which 600 are
reserved for another task; that task is then paid 100 of its 600. -/
theorem reservation_spent : AtGenesis devEnv (devnet .default [("user", 1000)]) ∧
      ∃ c c', Run devEnv (fun _ _ => True) (devnet .default [("user", 1000)]) c ∧
        (∃ ia ∈ c.state.ledger.getInferenceAccount (devAddr "user"),
          ia.balance.amount = 100 ∧ ia.frozenBalance.amount = 600) ∧
        c.state.ledger.frozenBalance.get [255] = some 600 ∧
        c.step devEnv (devBatch [devEntry [255] "user" 600 0]) = some c' ∧
        (1, .settled ⟨[255], devAddr "user", 600, 100, 97, 0⟩) ∈ c'.state.ledger.log := by
  refine ⟨atGenesis_user, exists_pair_and_imp (Run.exists_of_exec
    [devReserve [devRow [255] "user" 600 0], devBatch [devEntry [254] "user" 900 0]] ?_)
    fun _ _ h => h⟩
  decide +kernel

end FunaiChain.Settlement
