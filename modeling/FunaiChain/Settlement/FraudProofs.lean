import FunaiChain.Settlement.Balance
import FunaiChain.Settlement.Devnet
import FunaiChain.Settlement.Records

/-!
# FunaiChain.Settlement.FraudProofs

Fraud is terminal, and fraud proofs are sound and one-shot.

* A mark is never removed, and every path that charges a task looks at the mark
  first, so the log of a marked task gets no further payment.  The log can be relied
  on: no account and no coin of the module account goes down by more than the
  payments that are logged (`Accounted`).
* A refused proof changes nothing (`processFraudProof_error`).  An accepted one shows
  two signatures of the registered key of the worker over different hashes
  (`Contradiction`), and agrees with the record of the task, if there is one
  (`Bound`).
* What it claws back from the worker of a settled task is at most what the payment
  behind the record gave to the executor (`Backs.clawback_le`).  That needs ratios
  that sum to 1000 as numbers: `Params.validate` adds them as `uint32`, and a sum
  that wraps around passes.
-/

namespace FunaiChain.Settlement

variable {env : Env} {params : Params}

section
open Ledger
variable {height : Int} {fees : Int → Int} {e : Int × Effect} {lab : Label} {c x y : Int}
  {ev : Event} {l l' : Ledger} {third : Bool} {c' : Chain}

/-! ## payments in the log -/

namespace Effect

/-- The payment of a settlement. -/
def payment : Effect → Option Payment
  | .settled p => some p
  | _ => none

/-- What an effect takes from an account. -/
def charge (a : Addr) : Effect → Int
  | .settled p => if p.user = a then p.paid else 0
  | _ => 0

/-- What an effect hands on to workers. -/
def payout : Effect → Int
  | .reserved _ _ _ _ => 0
  | .settled p => p.verifiers + p.executor
  | .fundPaid _ amount => amount

end Effect

namespace TaskView

def payments (v : TaskView) : List Payment := v.log.filterMap fun e => e.2.payment

end TaskView

namespace Ledger

/-- The payments made for a task. -/
def payments (l : Ledger) (t : TaskId) : List Payment := (l.view t).payments

/-- What settlements took from an account. -/
def charged (l : Ledger) (a : Addr) : Int := (l.log.map fun e => e.2.charge a).sum

/-- What settlements and the fund handed on. -/
def handedOn (l : Ledger) : Int := (l.log.map fun e => e.2.payout).sum

theorem charged_cons (h : l'.log = e :: l.log) (a : Addr) :
    l'.charged a = e.2.charge a + l.charged a := by
  rw [charged, h, List.map_cons, List.sum_cons, charged]

theorem handedOn_cons (h : l'.log = e :: l.log) : l'.handedOn = e.2.payout + l.handedOn := by
  rw [handedOn, h, List.map_cons, List.sum_cons, handedOn]

end Ledger

/-! ## a marked task -/

section Marked
variable {account : Addr → Bool} {t : TaskId} {v v' : TaskView}
  {apt : SecondVerificationPendingTask}

/-- The settlement of a marked task does nothing. -/
theorem TaskAudited.of_marked {settled : Bool}
    (h : TaskAudited env height account apt v v' settled) (hmark : v.marked = true) :
    v' = v ∧ settled = true := by
  cases h with
  | marked => exact ⟨rfl, rfl⟩
  | stuck unmarked | refused unmarked | charged unmarked => simp [hmark] at unmarked

theorem TaskJudged.of_marked {ar : SecondVerificationRecord}
    (h : TaskJudged env height params account ar apt v v') (hmark : v.marked = true) :
    v'.marked = true ∧ v'.payments = v.payments := by
  cases h with
  | escalated | overturned => exact ⟨hmark, rfl⟩
  | tokenFraud step =>
    rw [TaskView.releaseFor_frame] at step
    obtain ⟨rfl, -⟩ := step.of_marked hmark
    exact ⟨hmark, rfl⟩
  | settled step | retained step =>
    obtain ⟨rfl, -⟩ := step.of_marked hmark
    exact ⟨hmark, rfl⟩

theorem TaskTimeout.of_marked (h : TaskTimeout env height account third apt v v')
    (hmark : v.marked = true) : v'.marked = true ∧ v'.payments = v.payments := by
  cases h with
  | settled step =>
    obtain ⟨rfl, -⟩ := step.of_marked hmark
    cases third <;> exact ⟨hmark, rfl⟩
  | failed step =>
    obtain ⟨-, hsettled⟩ := step.of_marked hmark
    contradiction

theorem TaskTurns.of_marked (h : TaskTurns env height account third apt v v')
    (hmark : v.marked = true) : v'.marked = true ∧ v'.payments = v.payments := by
  induction h with
  | nil => exact ⟨hmark, rfl⟩
  | cons turn _ ih =>
    obtain ⟨hmark₁, hsame⟩ := turn.of_marked hmark
    obtain ⟨hmark₂, hsame'⟩ := ih hmark₁
    exact ⟨hmark₂, hsame'.trans hsame⟩

/-- **A step keeps the mark** of a task, and makes no payment for a marked
task. -/
theorem TaskStep.of_marked (h : TaskStep env height params account t v lab v')
    (hmark : v.marked = true) : v'.marked = true ∧ v'.payments = v.payments := by
  cases h with
  | idle | reserved | parked | refused | unpaid | voted | cleanup => exact ⟨hmark, rfl⟩
  | charged _ _ _ _ is_open =>
    have hunmarked := is_open.unmarked
    simp [hmark] at hunmarked
  | judged _ _ _ _ _ step => exact step.of_marked hmark
  | fraud => exact ⟨rfl, rfl⟩
  | swept _ _ _ turns => exact turns.of_marked hmark

end Marked

/-! ## the log accounts for the money -/

section Accounting
variable {Fee : Int → Prop} {Rel : Addr → TaskId → Prop}

/-- Between two ledgers no account goes down by more than the log says was
charged to it, and no more is paid out than it says was handed on. -/
structure Logged (l l' : Ledger) (out : Int) : Prop where
  debits : ∀ a, l.balanceOf a - l'.balanceOf a ≤ l'.charged a - l.charged a
  payouts : out ≤ l'.handedOn - l.handedOn

theorem Logged.refl (l : Ledger) : Logged l l 0 := ⟨fun _ => by omega, by omega⟩

theorem Logged.trans {l'' : Ledger} (h : Logged l l' x) (h' : Logged l' l'' y) :
    Logged l l'' (x + y) where
  debits := fun a => by
    have hd := h.debits a
    have hd' := h'.debits a
    omega
  payouts := by
    have hp := h.payouts
    have hp' := h'.payouts
    omega

/-- Nothing is logged, and no balance changes. -/
theorem Logged.of_same (hbalance : ∀ a, l'.balanceOf a = l.balanceOf a) (hlog : l'.log = l.log)
    (hout : x ≤ 0) : Logged l l' x where
  debits := fun a => by
    rw [hbalance, charged, hlog, charged]
    omega
  payouts := by
    rw [handedOn, hlog, handedOn]
    omega

theorem Logged.of_money (money : l'.money = l.money) (hout : x ≤ 0) : Logged l l' x :=
  .of_same (balanceOf_congr (accounts_of_money money))
    (congrArg MoneyView.log money) hout

theorem MoneyStep.logged (h : MoneyStep height params Fee Rel l l' x) : Logged l l' x := by
  cases h with
  | idle money => exact .of_money money (Int.le_refl 0)
  | release a t => exact .of_same (l.balanceOf_release a t) (l.log_release a t) (Int.le_refl 0)
  | charge _ p _ _ _ account _ money =>
    have hlog : l'.log = (height, .settled p) :: l.log := congrArg MoneyView.log money
    have hbalance : ∀ a, l'.balanceOf a =
        if p.user = a then l.balanceOf a - p.paid else l.balanceOf a := fun a =>
      (balanceOf_congr (accounts_of_money money) a).trans
        (balanceOf_debit account p.paid a)
    constructor
    · intro a
      rw [hbalance, charged_cons hlog]
      simp only [Effect.charge]
      split <;> omega
    · rw [handedOn_cons hlog]
      simp only [Effect.payout]
      omega

theorem MoneyPath.logged (h : MoneyPath height params Fee Rel l l' x) : Logged l l' x := by
  induction h with
  | refl => exact .refl l
  | tail _ step ih => exact ih.trans step.logged

/-- A new row of the log that charges nobody. -/
theorem Logged.of_note (hbalance : ∀ a, l'.balanceOf a = l.balanceOf a) (hlog : l'.log = e :: l.log)
    (hcharge : ∀ a, e.2.charge a = 0) (hout : x ≤ e.2.payout) : Logged l l' x where
  debits := fun a => by
    rw [hbalance, charged_cons hlog, hcharge]
    omega
  payouts := by
    rw [handedOn_cons hlog]
    omega

theorem AccountStep.logged (h : AccountStep env height params fees Fee Rel l lab l' x)
    (hlab : ∀ a y, lab ≠ .withdraw a y) : Logged l l' x := by
  cases h with
  | deposit a x =>
    have hlog : (l.credit a x).log = l.log := by
      unfold credit
      split <;> rfl
    constructor
    · intro b
      rw [balanceOf_credit, charged, hlog, charged]
      split <;> omega
    · rw [handedOn, hlog, handedOn]
      omega
  | withdraw a x => exact absurd rfl (hlab a x)
  | reserve row _ _ n res =>
    exact .of_note (l.balanceOf_freeze res.account row.taskId n) rfl (fun _ => rfl) (Int.le_refl 0)
  | path _ path => exact path.logged
  | refund _ money _ refund => exact .of_money money refund
  | fund _ step =>
    cases step with
    | idle => exact .refl l
    | paid => exact .of_note (fun _ => rfl) rfl (fun _ => rfl) (Int.le_refl _)

theorem Steps.logged {labs : List Label} (h : Steps env height params fees labs l l' x c)
    (hlabs : ∀ lab ∈ labs, ∀ a y, lab ≠ .withdraw a y) : Logged l l' x := by
  induction h with
  | nil l => exact .refl l
  | cons step _ ih =>
    have hfirst := step.account_trivial.logged (hlabs _ (.head _))
    exact hfirst.trans (ih fun lab hlab => hlabs lab (.tail _ hlab))

end Accounting

/-! ## runs -/

/-- An event takes no more from an account, and from the coins of the module,
than it logs; a withdrawal logs nothing.  Of the coins this is said of runs
without messages in the name of the module account itself. -/
structure Accounted (env : Env) (ev : Event) (c c' : Chain) : Prop where
  debits : (∀ msg, ev ≠ .tx (.withdraw msg)) → ∀ a,
    c.state.ledger.balanceOf a - c'.state.ledger.balanceOf a ≤
      c'.state.ledger.charged a - c.state.ledger.charged a
  payouts : env.signs env.settlementAccount = false → (∀ msg, ev ≠ .tx (.withdraw msg)) →
    c.state.moduleBalance env - c'.state.moduleBalance env ≤
      c'.state.ledger.handedOn - c.state.ledger.handedOn
  withdrawal : ∀ msg, ev = .tx (.withdraw msg) → c'.state.ledger.log = c.state.ledger.log

theorem Performed.accounted {c : Chain} (hs : Orderly env c.state)
    (h : Performed env ev c c' x y) : Accounted env ev c c' := by
  have hlogged : (∀ msg, ev ≠ .tx (.withdraw msg)) →
      Logged c.state.ledger c'.state.ledger x := fun hev =>
    h.steps.logged fun lab hlab a z he => by
      subst he
      obtain ⟨msg, hmsg⟩ := Event.issues hlab
      exact hev msg hmsg
  refine ⟨fun hev => (hlogged hev).debits, fun hkeyless hev => ?_, fun msg hev => ?_⟩
  · have hout := (hlogged hev).payouts
    have hbalance := h.balance (.of_keyless hkeyless) (hs.apart hkeyless)
    omega
  · refine h.steps.invariant (I := fun l => l.log = c.state.ledger.log) rfl ?_
    intro lab hlab l l' x y hl hstep
    subst hev
    obtain ⟨a, -, rfl⟩ := List.mem_map.mp hlab
    cases hstep with
    | idle | withdraw => exact hl

theorem Performed.of_marked {c : Chain} {t : TaskId} (h : Performed env ev c c' x y)
    (hmark : c.state.hasFraudMark t = true) :
    c'.state.hasFraudMark t = true ∧ c'.state.ledger.payments t = c.state.ledger.payments t := by
  refine h.steps.invariant (I := fun l => l.hasFraudMark t = true ∧
    l.payments t = c.state.ledger.payments t) ⟨hmark, rfl⟩ ?_
  intro lab _ l l' x y hl hstep
  obtain ⟨hmark', hsame⟩ := (hstep.task t).of_marked hl.1
  exact ⟨hmark', hsame.trans hl.2⟩

/-- **Fraud is terminal for money.**  From any reachable state in which a task
is marked, every continuation keeps the mark and makes no payment for the
task; and whatever any further event takes from an account or pays out of the
module account, it logs as a payment. -/
theorem fraud_is_terminal {c₀ c c' : Chain} {t : TaskId} (hgenesis : AtGenesis env c₀)
    (run : Run env (fun _ _ => True) c₀ c) (hmark : c.state.hasFraudMark t = true)
    (run' : Run env (fun _ _ => True) c c') : c'.state.hasFraudMark t = true ∧
      c'.state.ledger.payments t = c.state.ledger.payments t ∧
      ∀ ev c'', c'.step env ev = some c'' → Accounted env ev c' c'' := by
  have hwf := run.wellFormed hgenesis
  have hkept : c'.state.hasFraudMark t = true ∧
      c'.state.ledger.payments t = c.state.ledger.payments t :=
    run'.preserves_from (I := fun c' => c'.state.hasFraudMark t = true ∧
      c'.state.ledger.payments t = c.state.ledger.payments t) hwf ⟨hmark, rfl⟩
      fun c₁ ev c₂ x y _ hc _ hp => by
        obtain ⟨hmark', hsame⟩ := hp.of_marked hc.1
        exact ⟨hmark', hsame.trans hc.2⟩
  refine ⟨hkept.1, hkept.2, fun ev c'' hnext => ?_⟩
  have hwf' : WellFormed env c'.state :=
    run'.preserves_from (I := fun c => WellFormed env c.state) hwf hwf
      fun _ _ _ _ _ hwf _ _ hp => hp.wellFormed hwf
  obtain ⟨x, y, hp⟩ := Chain.step_performed hwf' hnext
  exact hp.accounted hwf'.toOrderly

/-- A task is audited, found fraudulent while it waits, and times out: its user
keeps everything. -/
theorem fraud_is_terminal_devnet :
    ∃ c c', Run devEnv (fun _ _ => True) (devnet .default [("user", 1000)]) c ∧
      Run devEnv (fun _ _ => True) c c' ∧ c.state.hasFraudMark (devHash 16) = true ∧
      c'.state.ledger.pendingAt false (devHash 16) = none ∧
      c'.state.ledger.payments (devHash 16) = c.state.ledger.payments (devHash 16) := by
  refine exists_pair_and_imp (q := fun c => c.state.hasFraudMark (devHash 16) = true ∧
      (execRun (Chain.step devEnv) (fun _ _ => True) c [devEndBlock 10000, devEndBlock 10001]).any
        (fun c' => c'.state.ledger.pendingAt false (devHash 16) = none) = true)
    (Run.exists_of_exec [devBatch [devEntry (devHash 16) "user" 100 0],
      devFraud "user" (devHash 16)] (by decide +kernel)) ?_
  rintro c run ⟨hmark, hnext⟩
  obtain ⟨c', run', hgone⟩ := Run.exists_of_exec _ hnext
  exact ⟨c', run', hmark, hgone, (fraud_is_terminal atGenesis_user run hmark run').2.1⟩

end

variable {ctx : Ctx} {s s' : State} {msg : MsgFraudProof} {st : SettledTaskID} {w : Addr}

/-! ## what is checked -/

/-- The registered key of the worker signed two different hashes for the
task. -/
structure Contradiction (env : Env) (s : State) (msg : MsgFraudProof) (w : Addr) (key : Bytes) :
    Prop where
  worker : env.accAddressFromBech32 msg.workerAddress = some w
  registered : (s.world.getWorkerPubkey w).bind (decodeWorkerPubkey env) = some key
  receipt : env.verifySignature key (receiptSigPayload env msg.taskId msg.receiptResultHash)
    msg.workerReceiptSig = true
  content : env.verifySignature key (contentSigPayload env msg.taskId msg.receivedOutputHash)
    msg.workerContentSig = true
  differ : msg.receiptResultHash ≠ msg.receivedOutputHash

/-- A proof is about the worker and by the user of a record, and in time for
it. -/
structure Bound (params : Params) (height : Int) (msg : MsgFraudProof) (st : SettledTaskID) :
    Prop where
  worker : msg.workerAddress = st.workerAddress
  reporter : msg.reporter = st.userAddress
  recorded : st.settledAt ≤ height
  window : height ≤ st.settledAt + params.fraudWindowBlocks.toNat

theorem checkContradiction_ok (h : checkContradiction env s msg w = .ok ())
    (hworker : env.accAddressFromBech32 msg.workerAddress = some w) :
    ∃ key, Contradiction env s msg w key := by
  unfold checkContradiction at h
  split at h
  · cases h
  next text htext =>
  split at h
  · cases h
  next key hkey =>
  obtain ⟨_, hreceipt, h⟩ := bind_eq_ok.mp h
  obtain ⟨_, hcontent, hdiffer⟩ := bind_eq_ok.mp h
  refine ⟨key, hworker, ?_, ensure_eq_ok.mp hreceipt, ensure_eq_ok.mp hcontent, ?_⟩
  · rw [htext]
    exact hkey
  · simpa using ensure_eq_ok.mp hdiffer

/-- Within `int64` the window ends where it should, or the proof is late. -/
theorem checkWindow_ok {height start : Int} {what : String}
    (h : checkWindow params height what start = .ok ()) (hpos : 0 < start)
    (hheight : height < 2 ^ 63) (hwindow : params.fraudWindowBlocks.toNat < 2 ^ 62) :
    height ≤ start + params.fraudWindowBlocks.toNat := by
  have hopen := ensure_eq_ok.mp h
  simp only [Bool.not_eq_true', decide_eq_false_iff_not, not_and, Int.not_lt] at hopen
  have hend := hopen hpos
  unfold windowEnd at hend
  by_cases hsum : start + params.fraudWindowBlocks.toNat < 2 ^ 63
  · rw [Int.bmod_eq_of_le (by omega) (by omega)] at hend
    exact hend
  · omega

theorem checkFootprint_bound (hempty : env.accAddressFromBech32 "" = none)
    (hgenuine : st.Genuine env ctx.height) (hheight : ctx.height < 2 ^ 63)
    (hwindow : s.params.fraudWindowBlocks.toNat < 2 ^ 62)
    (h : checkFootprint s.params ctx.height msg (.settled st) = .ok ()) :
    Bound s.params ctx.height msg st := by
  obtain ⟨_, hworker, h⟩ := bind_eq_ok.mp h
  obtain ⟨_, hin, hreporter⟩ := bind_eq_ok.mp h
  have hne : ∀ {a : String}, (env.accAddressFromBech32 a).isSome → a ≠ "" := by grind
  have hw := ensure_eq_ok.mp hworker
  have hu := ensure_eq_ok.mp hreporter
  simp only [Bool.or_eq_true, beq_iff_eq, hne hgenuine.worker, hne hgenuine.user, false_or] at hw hu
  exact ⟨hw.symm, hu.symm, hgenuine.reached,
    checkWindow_ok hin hgenuine.positive hheight hwindow⟩

/-! ## what is clawed back -/

/-- The executor's share of the recorded fee. -/
def clawbackCoin (params : Params) (st : SettledTaskID) : Coin :=
  ⟨st.fee.denom, (st.fee.amount * params.executorFeeRatio.toNat).tdiv 1000⟩

/-- The bank after the clawback. -/
def clawedBank (env : Env) (s : State) (st : SettledTaskID) (w : Addr) (reporter : Option Addr) :
    Bank :=
  if st.fee.isPositive && (clawbackCoin s.params st).isPositive then
    clawbackSend env s.world.bank w (refundAddr env st reporter) (clawbackCoin s.params st)
  else s.world.bank

theorem clawback_world {reporter : Option Addr} :
    OnValue (fun s' => s'.world = { s.world with bank := clawedBank env s st w reporter })
      (clawback env s st w reporter) := by
  unfold clawback clawedBank
  refine .ite (fun hfee => .after fun amount hamount => .after fun coin hcoin => ?_) fun hfee => ?_
  · obtain ⟨-, -, rfl⟩ := MathInt.share_eq_ok.mp hamount
    obtain ⟨-, -, rfl⟩ := Coin.new_eq_ok.mp hcoin
    rw [hfee, Bool.true_and]
    refine .ite (fun hpos => .ok ?_) fun hpos => .ok ?_
    · rw [if_pos (by exact hpos)]
      rfl
    · rw [if_neg (by exact hpos)]
  · rw [(Bool.not_eq_true _).mp hfee]
    exact .ok rfl

/-- **The clawback is covered.**  With ratios that make up the whole and
verifiers within their pool, the executor received its share of the fee. -/
theorem Backs.clawback_le {log : List (Int × Effect)} {p : Payment} (h : Backs params log st p)
    (hratios : params.RatiosSum)
    (hverifiers : p.verifiers ≤ (p.paid * params.verifierFeeRatio.toNat).tdiv 1000) :
    (clawbackCoin params st).amount ≤ p.executor := by
  have hsum := hratios.whole
  have hout := h.out
  have hexecutor := h.executor
  simp only [clawbackCoin, ← h.fee]
  unfold fundPart at hout
  generalize params.executorFeeRatio.toNat = e at hsum ⊢
  generalize params.verifierFeeRatio.toNat = v at hsum hverifiers
  generalize params.multiVerificationFundRatio.toNat = f at hsum hout
  generalize p.paid = paid at hout hverifiers ⊢
  by_cases hpos : 0 < paid
  · have hnonneg : ∀ n : Nat, 0 ≤ paid * n := fun n =>
      Int.mul_nonneg hpos.le (Int.natCast_nonneg n)
    have hwhole : paid * e + paid * v + paid * f = 1000 * paid := by
      rw [← Int.mul_add, ← Int.mul_add, Int.mul_comm 1000]
      congr 1
      omega
    rw [Int.tdiv_eq_ediv_of_nonneg (hnonneg e)]
    rw [Int.tdiv_eq_ediv_of_nonneg (hnonneg v)] at hverifiers
    rw [if_pos hpos, Int.tdiv_eq_ediv_of_nonneg (hnonneg f)] at hout
    omega
  · -- nothing was paid, and the share of it is not positive either
    have hneg : 0 ≤ -(paid * e) := Int.neg_nonneg.mpr
        (Int.mul_nonpos_of_nonpos_of_nonneg (Int.not_lt.mp hpos) (Int.natCast_nonneg e))
    have hshare : (paid * e).tdiv 1000 = -((-(paid * e)).tdiv 1000) := by grind
    rw [hshare, Int.tdiv_eq_ediv_of_nonneg hneg]
    omega

/-! ## one proof -/

/-- A refused proof changes nothing. -/
theorem processFraudProof_error :
    OnValue (fun r => ∀ e, r.2 = .error e → r.1 = s) (processFraudProof env ctx s msg) := by
  unfold processFraudProof
  split
  · exact .ok fun _ _ => rfl
  · exact .after fun _ _ => .after fun _ _ => .ok nofun

/-- A proof of a marked task is refused. -/
theorem processFraudProof_of_marked (hmark : s.hasFraudMark msg.taskId = true) :
    processFraudProof env ctx s msg = .ok (s, .error (.of .fraudMarked)) := by
  have hcheck : checkFraudProof env ctx s msg = .error (.of .fraudMarked) := by
    unfold checkFraudProof
    rw [hmark]
    rfl
  unfold processFraudProof
  rw [hcheck]

/-- What a successful proof of a settled task does to the other modules: the
clawback, and the punishment of the worker. -/
structure Revoked (env : Env) (s s' : State) (msg : MsgFraudProof) (st : SettledTaskID)
    (w : Addr) : Prop where
  worker : env.accAddressFromBech32 msg.workerAddress = some w
  world : punishWorker env
    { s.world with bank := clawedBank env s st w (env.accAddressFromBech32 msg.reporter) } w
    (env.accAddressFromBech32 msg.reporter) = .ok s'.world

/-- A successful proof has been checked. -/
theorem processFraudProof_checked :
    OnValue (fun r => ∀ u, r.2 = .ok u → ∃ w fp s₁, checkFraudProof env ctx s msg = .ok (w, fp) ∧
    revokeSettled env (s.mapLedger (·.setFraudMark msg.taskId)) fp w
    (env.accAddressFromBech32 msg.reporter) = .ok s₁ ∧
    punishWorker env s₁.world w (env.accAddressFromBech32 msg.reporter) = .ok r.1.world)
    (processFraudProof env ctx s msg) := by
  unfold processFraudProof
  split
  · exact .ok nofun
  next w fp hcheck =>
  exact .after fun s₁ hrevoke => .after fun world hpunish => .ok fun _ _ =>
    ⟨w, fp, s₁, hcheck, hrevoke, hpunish⟩

/-- The record of a task is its footprint. -/
theorem footprint_of_record {l : Ledger} {t : TaskId} (h : l.getSettledTask t = some st) :
    footprint l t = some (.settled st) := by
  unfold footprint
  rw [h]

/-- What an accepted proof says, in a state whose records are genuine and
backed. -/
structure Sound (env : Env) (ctx : Ctx) (s s' : State) (msg : MsgFraudProof) : Prop where
  signed : ∃ w key, Contradiction env s msg w key
  bound : ∀ st, s.ledger.getSettledTask msg.taskId = some st → Bound s.params ctx.height msg st
  clawback : ∀ st, s.ledger.getSettledTask msg.taskId = some st → st.status = .settled →
    ∃ w p, Revoked env s s' msg st w ∧ (st.settledAt, Effect.settled p) ∈ s.ledger.log ∧
      p.task = msg.taskId ∧ p.paid = st.fee.amount ∧
      (p.verifiers ≤ (p.paid * s.params.verifierFeeRatio.toNat).tdiv 1000 →
        (clawbackCoin s.params st).amount ≤ p.executor)

theorem processFraudProof_sound (hempty : env.accAddressFromBech32 "" = none)
    (hgenuine : s.ledger.Genuine env ctx.height) (hbacked : s.ledger.Backed s.params)
    (hratios : s.params.RatiosSum) (hheight : ctx.height < 2 ^ 63)
    (hwindow : s.params.fraudWindowBlocks.toNat < 2 ^ 62)
    (h : processFraudProof env ctx s msg = .ok (s', .ok ())) : Sound env ctx s s' msg := by
  obtain ⟨w, fp, s₁, hcheck, hrevoke, hpunish⟩ := processFraudProof_checked.get h _ rfl
  obtain ⟨-, hfp, hworker, hbound, hcontra⟩ := checkFraudProof_ok.get hcheck
  -- the record is the footprint that was looked at
  have hrecord : ∀ {st}, s.ledger.getSettledTask msg.taskId = some st → fp = .settled st :=
    fun hst => Option.some.inj (hfp.symm.trans (footprint_of_record hst))
  refine ⟨⟨w, checkContradiction_ok hcontra hworker⟩, fun st hst => ?_, fun st hst hsettled => ?_⟩
  · rw [hrecord hst] at hbound
    exact checkFootprint_bound hempty (hgenuine.record _ st hst) hheight hwindow hbound
  · obtain ⟨p, hp⟩ := hbacked _ st hst hsettled
    rw [hrecord hst] at hrevoke
    simp only [revokeSettled, if_pos hsettled] at hrevoke
    rw [clawback_world.get hrevoke] at hpunish
    exact ⟨w, p, ⟨hworker, hpunish⟩, hp.logged, hp.task.trans (Ledger.taskId_of_get hst), hp.fee,
      hp.clawback_le hratios⟩

/-! ## runs -/

/-- A successful proof leaves a well-formed state in which the task is
marked. -/
theorem processFraudProof_marks (hwf : WellFormed env s)
    (h : processFraudProof env ctx s msg = .ok (s', .ok ())) :
    WellFormed env s' ∧ s'.hasFraudMark msg.taskId = true := by
  obtain ⟨x, hp⟩ := fraud_performs h
  refine ⟨⟨hp.orderly hwf.toOrderly, hp.unindexed hwf.unindexed, hp.params ▸ hwf.params⟩, ?_⟩
  obtain ⟨l', out, hstep, hmove⟩ := processFraudProof_cases.get h _ rfl
  obtain ⟨unmarked, known, out, refund⟩ := hstep
  have hview : (s'.ledger.view msg.taskId).marked = true := by
    rw [hmove.ledger, Ledger.view_markFraud, if_pos rfl]
  exact hview

/-- **Fraud proofs are sound and one-shot.**  A refused proof changes nothing.
In every reachable state an accepted proof is sound, and in every continuation
every further proof of its task is refused. -/
theorem fraud_proofs_sound {c₀ c : Chain} (hempty : env.accAddressFromBech32 "" = none)
    (hgenesis : AtGenesis env c₀) (hratios : c₀.state.params.RatiosSum)
    (hwindow : c₀.state.params.fraudWindowBlocks.toNat < 2 ^ 62)
    (run : Run env (fun _ _ => True) c₀ c) (hheight : c.ctx.height < 2 ^ 63) :
    (∀ ctx s s' msg e, processFraudProof env ctx s msg = .ok (s', .error e) → s' = s) ∧
    ∀ msg s', processFraudProof env c.ctx c.state msg = .ok (s', .ok ()) →
      Sound env c.ctx c.state s' msg ∧
      ∀ c', Run env (fun _ _ => True) ⟨c.ctx, s'⟩ c' → ∀ msg', msg'.taskId = msg.taskId →
        processFraudProof env c'.ctx c'.state msg' = .ok (c'.state, .error (.of .fraudMarked)) := by
  refine ⟨fun _ _ _ _ e h => processFraudProof_error.get h e rfl, fun msg s' h => ⟨?_, ?_⟩⟩
  · obtain ⟨hparams, hbacked⟩ := run.backed hgenesis
    exact processFraudProof_sound hempty (run.genuine hgenesis).2 hbacked (hparams ▸ hratios)
      hheight (hparams ▸ hwindow) h
  · intro c' run' msg' htask
    obtain ⟨hwf, hmark⟩ := processFraudProof_marks (run.wellFormed hgenesis) h
    have hkept : c'.state.hasFraudMark msg.taskId = true :=
      run'.preserves_from (I := fun c => c.state.hasFraudMark msg.taskId = true) hwf hmark
        fun _ _ _ _ _ _ hc _ hp => (hp.of_marked hc).1
    exact processFraudProof_of_marked (htask ▸ hkept)

/-- The proof of a user that the worker signed two results for a task. -/
def devProof (t : TaskId) : MsgFraudProof :=
  ⟨"user", t, "worker", devHash 1, [1], devHash 2, [1]⟩

/-- A task is settled without an audit, and its user proves a fraud: what was
paid to the executor covers the clawback. -/
theorem fraud_proofs_sound_devnet :
    ∃ c s', Run devEnv (fun _ _ => True) (devnet .default [("user", 1000)]) c ∧
      processFraudProof devEnv c.ctx c.state (devProof (devHash 255)) = .ok (s', .ok ()) ∧
      (c.state.ledger.getSettledTask (devHash 255)).any (·.status = .settled) = true ∧
      Sound devEnv c.ctx c.state s' (devProof (devHash 255)) := by
  obtain ⟨c, run, hheight, hsettled, ⟨s', r⟩, hok, hr⟩ :
      ∃ c, Run devEnv (fun _ _ => True) (devnet .default [("user", 1000)]) c ∧
      (c.ctx.height < 2 ^ 63 ∧
        (c.state.ledger.getSettledTask (devHash 255)).any (·.status = .settled) = true ∧
        ∃ r, processFraudProof devEnv c.ctx c.state (devProof (devHash 255)) = .ok r ∧
          r.2.isOk = true) :=
    Run.exists_of_exec [devBatch [devEntry (devHash 255) "user" 100 0]] (by decide +kernel)
  cases r with
  | error => contradiction
  | ok =>
    have hsound := (fraud_proofs_sound rfl atGenesis_user
      (by decide) (by decide) run hheight).2 _ s' hok
    exact ⟨c, s', run, hok, hsettled, hsound.1⟩

/-- Fee ratios whose sum is 1000 in `uint32` arithmetic only. -/
def devWrapped : Params :=
  { Params.default with
    executorFeeRatio := 4294967295
    verifierFeeRatio := 1000
    multiVerificationFundRatio := 1 }

/-- With ratios that wrap around, an executor that was paid 100 loses
429496729. -/
theorem clawback_exceeds_payment : devWrapped.validate = none ∧
    ∃ c s', Run devEnv (fun _ _ => True) (devnet devWrapped [("user", 1000)]) c ∧
      processFraudProof devEnv c.ctx c.state (devProof (devHash 255)) = .ok (s', .ok ()) ∧
      c.state.ledger.payments (devHash 255) = [⟨devHash 255, devAddr "user", 100, 100, 100, 0⟩] ∧
      c.state.world.bank.balance (devAddr "worker") defaultDenom =
        s'.world.bank.balance (devAddr "worker") defaultDenom + 429496729 := by
  refine ⟨by decide, ?_⟩
  obtain ⟨c, run, hpaid, ⟨s', r⟩, hok, hr, hlost⟩ :
      ∃ c, Run devEnv (fun _ _ => True) (devnet devWrapped [("user", 1000)]) c ∧
      (c.state.ledger.payments (devHash 255) = [⟨devHash 255, devAddr "user", 100, 100, 100, 0⟩] ∧
        ∃ r, processFraudProof devEnv c.ctx c.state (devProof (devHash 255)) = .ok r ∧
          r.2.isOk = true ∧ c.state.world.bank.balance (devAddr "worker") defaultDenom =
            r.1.world.bank.balance (devAddr "worker") defaultDenom + 429496729) :=
    Run.exists_of_exec [devBatch [devEntry (devHash 255) "user" 100 0],
      devCoins "worker" 1000000000] (by decide +kernel)
  cases r with
  | error => contradiction
  | ok => exact ⟨c, s', run, hok, hpaid, hlost⟩

end FunaiChain.Settlement
