import FunaiChain.Settlement.Balance
import FunaiChain.Settlement.Devnet

/-!
# FunaiChain.Settlement.Credit

Where user credit comes from.  As long as the entries of batches name no
negative amount, every step but a deposit leaves each balance where it was or
lowers it (`only_deposits_credit`).  Batches are not checked for that: a
success with a negative fee credits the user (`batch_credits`).

`Ledger.Billed` is the invariant: no balance is negative, and no pending task
can be settled for a negative fee.
-/

namespace FunaiChain.Settlement

open Ledger

variable {env : Env} {height : Int} {params : Params} {fees : Int → Int}
variable {l l' : Ledger} {c x : Int} {lab : Label} {Rel : Addr → TaskId → Prop} {ev : Event}
  {ctx : Ctx} {a : Addr}

/-! ## amounts that are not negative -/

namespace SecondVerificationPendingTask

/-- Whatever the audit finds, the fee of the task is not negative. -/
def Billable (apt : SecondVerificationPendingTask) : Prop :=
  ∀ override fee, auditedFee apt override = .ok fee → 0 ≤ fee.amount

end SecondVerificationPendingTask

/-- An entry that names no negative amount is billable after audit. -/
theorem billable_pendingOf {e : SettlementEntry} (h : 0 ≤ e.nominal.amount) (height : Int) :
    (pendingOf height e).Billable :=
  fun _ _ hfee => (auditedFee_pendingOf hfee).elim (·.1) (· ▸ h)

/-- The entry of a label, if it is one, names no negative amount. -/
def Label.Nonnegative (lab : Label) : Prop := ∀ e, lab = .entry e → 0 ≤ e.nominal.amount

namespace Ledger

/-- No balance is negative and no pending task has a negative fee. -/
structure Billed (l : Ledger) : Prop where
  funded : l.Funded
  billable : l.AllPending SecondVerificationPendingTask.Billable

end Ledger

/-- A step as accounting sees it when no amount is negative. -/
theorem LedgerStep.account_nonneg (h : LedgerStep env height params fees l lab l' x c)
    (hlab : lab.Nonnegative) (hl : l.AllPending SecondVerificationPendingTask.Billable) :
    AccountStep env height params fees (0 ≤ ·) (fun _ _ => True) l lab l' x :=
  h.account
    (fun e he _ _ adm => ⟨trivial, fun _ hfee => ((actualFee_spec adm.denom hfee).2 (hlab e he)).1⟩)
    fun _ t apt hapt => ⟨hl _ t apt hapt, fun _ _ => trivial⟩

/-! ## balances only go down -/

theorem MoneyStep.lowers (h : MoneyStep height params (0 ≤ ·) Rel l l' x) (hl : l.Funded) :
    l'.Funded ∧ ∀ a, l'.balanceOf a ≤ l.balanceOf a := by
  cases h with
  | idle money =>
    have hsame := balanceOf_congr (accounts_of_money money)
    exact ⟨fun a => hsame a ▸ hl a, fun a => Int.le_of_eq (hsame a)⟩
  | release a t =>
    have hsame := l.balanceOf_release a t
    exact ⟨fun b => hsame b ▸ hl b, fun b => Int.le_of_eq (hsame b)⟩
  | charge _ p _ _ hfee account charge money =>
    have hbalance := hl p.user
    rw [balanceOf_of_get account] at hbalance
    obtain ⟨hnn, hle⟩ := charge.within hfee hbalance
    have hdebit : ∀ a, l'.balanceOf a =
        if p.user = a then l.balanceOf a - p.paid else l.balanceOf a := fun a =>
      (balanceOf_congr (accounts_of_money money) a).trans
        (balanceOf_debit account p.paid a)
    constructor
    · intro a
      rw [hdebit]
      split
      · next ha =>
        rw [← ha, balanceOf_of_get account]
        omega
      · exact hl a
    · grind

theorem MoneyPath.lowers (h : MoneyPath height params (0 ≤ ·) Rel l l' x) (hl : l.Funded) :
    l'.Funded ∧ ∀ a, l'.balanceOf a ≤ l.balanceOf a := by
  induction h with
  | refl => exact ⟨hl, fun _ => Int.le_refl _⟩
  | tail _ step ih =>
    obtain ⟨hfunded, hle⟩ := step.lowers ih.1
    exact ⟨hfunded, fun a => (hle a).trans (ih.2 a)⟩

section
variable (h : AccountStep env height params fees (0 ≤ ·) Rel l lab l' x) (hl : l.Funded)
include h hl

theorem AccountStep.funded : l'.Funded := by
  cases h with
  | deposit =>
    intro b
    have := hl b
    rw [balanceOf_credit]
    split <;> omega
  | withdraw _ _ _ ia account =>
    intro b
    have hfrozen := ia.frozenAmount_nonneg
    rw [balanceOf_debit account]
    split
    · next hab =>
      rw [← hab, balanceOf_of_get account]
      omega
    · exact hl b
  | reserve row _ _ n res =>
    intro b
    exact (balanceOf_freeze res.account row.taskId n b).symm ▸ hl b
  | path _ path => exact (path.lowers hl).1
  | refund _ money =>
    intro b
    exact (balanceOf_congr (accounts_of_money money) b).symm ▸ hl b
  | fund _ step =>
    cases step with
    | idle | paid => exact hl

/-- Every step but a deposit leaves each balance or lowers it. -/
theorem AccountStep.balance_le (hlab : ∀ a y, lab ≠ .deposit a y) (b : Addr) :
    l'.balanceOf b ≤ l.balanceOf b := by
  cases h with
  | deposit a x => exact absurd rfl (hlab a x)
  | withdraw _ _ _ _ account =>
    rw [balanceOf_debit account]
    split <;> omega
  | reserve row _ _ n res =>
    exact Int.le_of_eq (balanceOf_freeze res.account row.taskId n b)
  | path _ path => exact (path.lowers hl).2 b
  | refund _ money =>
    exact Int.le_of_eq (balanceOf_congr (accounts_of_money money) b)
  | fund _ step =>
    cases step with
    | idle | paid => exact Int.le_refl _

end

/-- Steps without negative amounts keep the books. -/
theorem LedgerStep.billed (h : LedgerStep env height params fees l lab l' x c)
    (hlab : lab.Nonnegative) (hl : l.Billed) : l'.Billed where
  funded := (h.account_nonneg hlab hl.billable).funded hl.funded
  billable := h.allPending (fun e he _ _ _ => billable_pendingOf (hlab e he) height)
    (fun _ hapt => hapt) hl.billable

/-! ## only deposits credit -/

/-- No entry of a batch names a negative amount: the price cap of a per-token
entry, the fee of any other. -/
def NonnegativeBatches (_ : Chain) (ev : Event) : Prop := ∀ e ∈ ev.entries, 0 ≤ e.nominal.amount

instance (c : Chain) (ev : Event) : Decidable (NonnegativeBatches c ev) :=
  inferInstanceAs (Decidable (∀ e ∈ ev.entries, _))

theorem NonnegativeBatches.label {c : Chain} (h : NonnegativeBatches c ev)
    (hlab : lab ∈ ev.script env ctx) : lab.Nonnegative :=
  fun e he => h e (by subst he; exact Event.issues hlab)

theorem Ledger.Initial.billed (h : l.Initial) : l.Billed where
  funded := fun a => by
    unfold balanceOf
    split
    · next ia hia => exact (h.account a ia hia).2.1
    · exact Int.le_refl 0
  billable := h.allPending _

theorem Run.billed {c₀ c : Chain} (hgenesis : AtGenesis env c₀)
    (run : Run env NonnegativeBatches c₀ c) : c.state.ledger.Billed :=
  run.preserves hgenesis (I := fun c => c.state.ledger.Billed) hgenesis.initial.billed
    fun _ _ _ _ _ _ hc hev hp =>
      hp.steps.invariant hc fun _ hlab _ _ _ _ hl hstep => hstep.billed (hev.label hlab) hl

/-- A script without deposits leaves each balance or lowers it. -/
theorem Steps.balance_le {labs : List Label} (h : Steps env height params fees labs l l' x c)
    (hl : l.Billed) (hlabs : ∀ lab ∈ labs, lab.Nonnegative ∧ ∀ a y, lab ≠ .deposit a y) (b : Addr) :
    l'.balanceOf b ≤ l.balanceOf b := by
  refine (h.invariant (I := fun l₁ => l₁.Billed ∧ l₁.balanceOf b ≤ l.balanceOf b)
    ⟨hl, Int.le_refl _⟩ ?_).2
  intro lab hlab l₁ l₂ x c hI hstep
  obtain ⟨hnn, hdeposit⟩ := hlabs lab hlab
  have hle := (hstep.account_nonneg hnn hI.1.billable).balance_le hI.1.funded hdeposit b
  exact ⟨hstep.billed hnn hI.1, hle.trans hI.2⟩

/-- A deposit that is executed, and one that is refused. -/
theorem Steps.deposit_cases {y : Int} (h : Steps env height params fees [.deposit a y] l l' x c) :
    (l' = l ∧ x = 0) ∨ (l' = l.credit a y ∧ x = -y) := by
  cases h with
  | cons step rest =>
    cases rest
    cases step with
    | idle => exact .inl ⟨rfl, rfl⟩
    | deposit => exact .inr ⟨rfl, Int.add_zero _⟩

/-- **Only deposits create user credit** in a run whose batches name no negative
amount, with no message in the name of the settlement account: a balance that a
step increases belongs to the creator of a deposit, and it grows by the coins
that moved into the settlement account. -/
theorem only_deposits_credit {c₀ c c' : Chain} {ev : Event} (hgenesis : AtGenesis env c₀)
    (hkeyless : env.signs env.settlementAccount = false)
    (run : Run env NonnegativeBatches c₀ c) (hev : NonnegativeBatches c ev)
    (next : c.step env ev = some c') (a : Addr) :
    c'.state.ledger.balanceOf a ≤ c.state.ledger.balanceOf a ∨
      ∃ msg, ev = .tx (.deposit msg) ∧ env.accAddressFromBech32 msg.creator = some a ∧
        c'.state.ledger.balanceOf a = c.state.ledger.balanceOf a + msg.amount.amount ∧
        c'.state.moduleBalance env = c.state.moduleBalance env + msg.amount.amount := by
  have hbilled := run.billed hgenesis
  have hwf := run.wellFormed hgenesis
  obtain ⟨x, y, hp⟩ := Chain.step_performed hwf next
  by_cases hdeposit : ∃ msg, ev = .tx (.deposit msg)
  · obtain ⟨msg, rfl⟩ := hdeposit
    have hsteps := hp.steps
    have hbank := hp.exactly (by simp) (.of_keyless hkeyless) (hwf.toOrderly.apart hkeyless)
    simp only [Event.script, Msg.script] at hsteps
    cases hcreator : env.accAddressFromBech32 msg.creator with
    | none =>
      rw [hcreator] at hsteps
      have hl : c'.state.ledger = c.state.ledger := hsteps.eq_of_nil
      rw [hl]
      exact .inl (Int.le_refl _)
    | some u =>
      rw [hcreator] at hsteps
      obtain ⟨hl, -⟩ | ⟨hl, hx⟩ := Steps.deposit_cases hsteps
      · grind
      · rw [hl, balanceOf_credit]
        grind
  · refine .inl (hp.steps.balance_le hbilled (fun lab hlab => ⟨hev.label hlab, ?_⟩) a)
    rintro b y rfl
    exact hdeposit (Event.issues hlab)

/-- A deposit after a settlement, on the devnet. -/
theorem only_deposits_credit_devnet :
    ∃ c c', Run devEnv NonnegativeBatches (devnet .default [("user", 1000)]) c ∧
      c.step devEnv (devDeposit "user" 50) = some c' ∧
      c.state.ledger.balanceOf (devAddr "user") = 900 ∧
      c'.state.ledger.balanceOf (devAddr "user") = 950 ∧
      c'.state.moduleBalance devEnv = c.state.moduleBalance devEnv + 50 := by
  refine exists_pair_and_imp (q := fun c => c.state.ledger.balanceOf (devAddr "user") = 900 ∧
      ∃ c' ∈ c.step devEnv (devDeposit "user" 50), c'.state.ledger.balanceOf (devAddr "user") = 950)
    (Run.exists_of_exec [devCoins "user" 50, devBatch [devEntry [255] "user" 100 500]]
      (by decide +kernel)) ?_
  rintro c run ⟨hbefore, c', next, hafter⟩
  refine ⟨c', next, hbefore, hafter, ?_⟩
  have hev : NonnegativeBatches c (devDeposit "user" 50) := by
    simp [NonnegativeBatches, devDeposit, Event.entries]
  obtain hle | ⟨msg, hmsg, -, -, hbank⟩ :=
    only_deposits_credit atGenesis_user (by decide) run hev next (devAddr "user")
  · omega
  · cases hmsg
    exact hbank

/-- A success with a negative fee, next to a larger one, credits its user. -/
theorem batch_credits : AtGenesis devEnv (devnet .default [("user", 1000), ("other", 1000)]) ∧
      ∃ c ∈ (devnet .default [("user", 1000), ("other", 1000)]).step devEnv
          (devBatch [devEntry [255] "user" (-50) 500, devEntry [254] "other" 60 500]),
        c.state.ledger.balanceOf (devAddr "user") = 1050 := by
  refine ⟨atGenesis_devnet Params.default_valid (by decide), ?_⟩
  decide +kernel

end FunaiChain.Settlement
