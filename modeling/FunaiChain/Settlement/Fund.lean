import Mathlib.Tactic.Ring
import FunaiChain.Settlement.Credit

/-!
# FunaiChain.Settlement.Fund

The audit fund.  At an epoch boundary the module pays second verifiers the
fund's ratio of the fees counted in the closed epoch.  What it kept back for
that it kept task by task, and the two agree only when nothing is rounded
and every counted fee was paid:

* a success counts what was paid, but rounds the kept part down;
* a fail counts the whole fee, and keeps the fund's share of the fail fee
  the user could pay; a per-token fail is counted even when nothing was paid.

`fund_within_kept` is the positive half, `fund_exceeds_kept` a run in which
the fund is paid out of user deposits.
-/

namespace FunaiChain.Settlement

open Ledger

variable {env : Env} {height : Int} {params : Params} {fees : Int → Int}
variable {l l' : Ledger} {balance bound c fee x y : Int} {p : Payment} {e : Int × Effect}
  {ev : Event} {lab : Label} {entries : List SettlementEntry} {labs : List Label} {c' : Chain}

/-! ## what the log says -/

namespace Effect

/-- What a logged effect kept back in an epoch. -/
def keptIn (epoch : Int) : Int × Effect → Int
  | (h, .settled p) => if h.tdiv 100 = epoch then p.kept else 0
  | _ => 0

/-- What a logged effect sent from the fund of an epoch. -/
def sentIn (epoch : Int) : Int × Effect → Int
  | (_, .fundPaid e x) => if e = epoch then x else 0
  | _ => 0

end Effect

namespace Ledger

/-- What the settlements of an epoch kept back: what users paid less what
executors and verifiers received. -/
def keptIn (l : Ledger) (epoch : Int) : Int := (l.log.map (Effect.keptIn epoch)).sum

/-- What `DistributeMultiVerificationFund` sent for an epoch. -/
def sentIn (l : Ledger) (epoch : Int) : Int := (l.log.map (Effect.sentIn epoch)).sum

theorem keptIn_congr (h : l'.log = l.log) (epoch : Int) : l'.keptIn epoch = l.keptIn epoch := by
  rw [keptIn, h, keptIn]

theorem sentIn_congr (h : l'.log = l.log) (epoch : Int) : l'.sentIn epoch = l.sentIn epoch := by
  rw [sentIn, h, sentIn]

theorem keptIn_cons (h : l'.log = e :: l.log) (epoch : Int) :
    l'.keptIn epoch = Effect.keptIn epoch e + l.keptIn epoch := by
  rw [keptIn, h, List.map_cons, List.sum_cons, keptIn]

theorem sentIn_cons (h : l'.log = e :: l.log) (epoch : Int) :
    l'.sentIn epoch = Effect.sentIn epoch e + l.sentIn epoch := by
  rw [sentIn, h, List.map_cons, List.sum_cons, sentIn]

theorem log_credit (l : Ledger) (a : Addr) (x : Int) : (l.credit a x).log = l.log := by
  unfold credit
  split <;> rfl

end Ledger

/-- What the log says about the fund only grows on the side of the deposits:
more is kept back, and nothing is sent. -/
structure Retains (l l' : Ledger) : Prop where
  kept : ∀ epoch, l.keptIn epoch ≤ l'.keptIn epoch
  sent : ∀ epoch, l'.sentIn epoch = l.sentIn epoch

namespace Retains

theorem of_log (h : l'.log = l.log) : Retains l l' :=
  ⟨fun epoch => Int.le_of_eq (keptIn_congr h epoch).symm, sentIn_congr h⟩

theorem trans {l₁ l₂ : Ledger} (h : Retains l l₁) (h' : Retains l₁ l₂) : Retains l l₂ :=
  ⟨fun epoch => (h.kept epoch).trans (h'.kept epoch),
    fun epoch => (h'.sent epoch).trans (h.sent epoch)⟩

/-- An effect that sends nothing and does not keep a negative amount. -/
theorem of_cons (h : l'.log = e :: l.log) (hkept : ∀ epoch, 0 ≤ Effect.keptIn epoch e)
    (hsent : ∀ epoch, Effect.sentIn epoch e = 0) : Retains l l' := by
  constructor
  · intro epoch
    have := hkept epoch
    rw [keptIn_cons h]
    omega
  · intro epoch
    rw [sentIn_cons h, hsent, Int.zero_add]

/-- A payment that keeps something back. -/
theorem of_payment (h : l'.log = (height, .settled p) :: l.log) (hp : 0 ≤ p.kept) :
    Retains l l' := by
  refine .of_cons h (fun epoch => ?_) fun _ => rfl
  simp only [Effect.keptIn]
  split <;> omega

end Retains

theorem MoneyPath.retains {Rel : Addr → TaskId → Prop}
    (h : MoneyPath height params (0 ≤ ·) Rel l l' x) (hratios : params.RatiosSum) (hl : l.Funded) :
    Retains l l' := by
  induction h with
  | refl => exact .of_log rfl
  | tail before step ih =>
    refine ih.trans ?_
    have hfunded := (before.lowers hl).1
    cases step with
    | idle money => exact .of_log (congrArg MoneyView.log money)
    | release => exact .of_log (log_release ..)
    | charge _ p _ _ hfee account charge money =>
      have hbalance := hfunded p.user
      rw [balanceOf_of_get account] at hbalance
      have hout := charge.out_le hratios hfee hbalance
      refine .of_payment (congrArg MoneyView.log money) ?_
      unfold Payment.kept
      omega

/-- Every step but the payout of the fund retains. -/
theorem LedgerStep.retains (h : LedgerStep env height params fees l lab l' x c)
    (hratios : params.RatiosSum) (hlab : lab.Nonnegative) (hfund : ∀ epoch, lab ≠ .fund epoch)
    (hl : l.Billed) : Retains l l' := by
  cases h.account_nonneg hlab hl.billable with
  | deposit a y => exact .of_log (l.log_credit a y)
  | withdraw => exact .of_log rfl
  | reserve =>
    exact .of_cons (l := l) rfl (fun _ => Int.le_refl 0) fun _ => rfl
  | path _ path => exact path.retains hratios hl.funded
  | refund _ money => exact .of_log (congrArg MoneyView.log money)
  | fund epoch => exact absurd rfl (hfund epoch)

/-! ## the arithmetic of one task -/

/-- What the verifiers leave of a fail fee is at least the fund's share of it. -/
theorem failVerifierPart_rest (hratios : params.RatiosSum) {paid verifiers : Int}
    (hpaid : 0 ≤ paid) (hle : verifiers ≤ failVerifierPart params paid) :
    paid * params.multiVerificationFundRatio.toNat ≤ (paid - verifiers) *
    (params.verifierFeeRatio.toNat + params.multiVerificationFundRatio.toNat) := by
  rw [failVerifierPart, hratios.toNat_add] at hle
  generalize params.verifierFeeRatio.toNat = v at *
  generalize params.multiVerificationFundRatio.toNat = f at *
  have hnn : 0 ≤ paid * v := mul_nonneg hpaid (Int.natCast_nonneg v)
  rw [Int.tdiv_eq_ediv_of_nonneg hnn, Int.natCast_add] at hle
  have hd : (0 : Int) ≤ v + f := by omega
  have hfloor : paid * v / (v + f) * (v + f) ≤ paid * v := by
    by_cases hzero : (v : Int) + f = 0
    · simpa [hzero] using hnn
    · exact Int.ediv_mul_le _ hzero
  have hmul : verifiers * (v + f) ≤ paid * v := (Int.mul_le_mul_of_nonneg_right hle hd).trans hfloor
  have hsplit : (paid - verifiers) * ((v : Int) + f) =
      paid * v + paid * f - verifiers * (v + f) := by ring
  omega

/-- A success that is paid in full keeps the fund's ratio of it. -/
theorem Charge.success_pool (h : Charge params fee balance p true) (hfee : 0 ≤ fee)
    (hcover : fee ≤ balance) (hwhole : 1000 ∣ fee * params.multiVerificationFundRatio.toNat) :
    p.paid = fee ∧ p.paid * params.multiVerificationFundRatio.toNat ≤ 1000 * p.kept := by
  cases h with
  | success due pay =>
    have hpaid : p.paid = fee := by rw [pay.paid, due, min_eq_left hcover]
    refine ⟨hpaid, ?_⟩
    have hexact : 1000 * fundPart params fee = _ := Int.mul_tdiv_cancel' hwhole
    have hout := pay.out
    rw [hpaid] at hout ⊢
    unfold Payment.kept
    split at hout
    · omega
    · grind

/-- A fail that is paid in full keeps the fund's ratio of the whole fee, when
the fail ratio is not below the ratios of those it is shared by. -/
theorem Charge.fail_pool (h : Charge params fee balance p false) (hratios : params.RatiosSum)
    (hfee : 0 ≤ fee) (hcover : failFee params fee ≤ balance)
    (hfail : params.verifierFeeRatio.toNat + params.multiVerificationFundRatio.toNat ≤
    params.failSettlementFeeRatio.toNat)
    (hwhole : 1000 ∣ fee * params.failSettlementFeeRatio.toNat) :
    fee * params.multiVerificationFundRatio.toNat ≤ 1000 * p.kept := by
  cases h with
  | fail due pay =>
    have hpaid : p.paid = failFee params fee := by rw [pay.paid, due, min_eq_left hcover]
    have hnn : 0 ≤ p.paid := by rw [hpaid, ← due]; exact pay.due
    have hexact : 1000 * failFee params fee = _ := Int.mul_tdiv_cancel' hwhole
    have hle : p.verifiers ≤ failVerifierPart params p.paid := by
      by_cases hpos : 0 < p.paid
      · exact pay.out hpos
      · have hzero : p.paid = 0 := by omega
        simp [pay.none (by omega), hzero, failVerifierPart]
    have hroom : p.verifiers ≤ p.paid := hle.trans (failVerifierPart_le hratios hnn)
    have hrest := failVerifierPart_rest hratios hnn hle
    have hkept : p.kept = p.paid - p.verifiers := by
      rw [Payment.kept, pay.executor, Int.sub_zero]
    rw [hkept]
    rw [← hpaid] at hexact
    generalize params.verifierFeeRatio.toNat = v at *
    generalize params.multiVerificationFundRatio.toNat = f at *
    generalize params.failSettlementFeeRatio.toNat = r at *
    -- both sides times the divisor of the fail split
    have hchain : fee * f * (v + f) ≤ 1000 * (p.paid - p.verifiers) * (v + f) := by
      calc fee * f * (v + f) ≤ fee * f * r := Int.mul_le_mul_of_nonneg_left (by omega)
              (mul_nonneg hfee (Int.natCast_nonneg f))
        _ = 1000 * (p.paid * f) := by rw [← Int.mul_assoc, hexact]; ring
        _ ≤ 1000 * ((p.paid - p.verifiers) * (v + f)) := by omega
        _ = 1000 * (p.paid - p.verifiers) * (v + f) := by ring
    by_cases hzero : (v : Int) + f = 0
    · grind
    · exact le_of_mul_le_mul_right hchain (by omega)

/-! ## fair entries -/

/-- An entry whose fund part is whole; a fail must be per request, and the fail
ratio not below the ratios it is shared by. -/
def FairEntry (params : Params) (e : SettlementEntry) : Prop :=
  0 ≤ e.nominal.amount ∧
  (e.status = .success → ∀ fee ∈ (actualFee params e).toOption,
    1000 ∣ fee.amount * params.multiVerificationFundRatio.toNat) ∧
  (e.status ≠ .success → e.isPerToken = false ∧
    params.verifierFeeRatio.toNat + params.multiVerificationFundRatio.toNat ≤
      params.failSettlementFeeRatio.toNat ∧
    1000 ∣ e.fee.amount * params.failSettlementFeeRatio.toNat)

instance (params : Params) (e : SettlementEntry) : Decidable (FairEntry params e) :=
  inferInstanceAs (Decidable (_ ∧ _ ∧ _))

/-- What a user is asked for by the entries of a batch. -/
def demand (env : Env) (entries : List SettlementEntry) (u : Addr) : Int :=
  ((entries.filter fun e => env.accAddressFromBech32 e.userAddress = some u).map
    (·.nominal.amount)).sum

theorem demand_cons (env : Env) (e : SettlementEntry) (entries : List SettlementEntry) (u : Addr) :
    demand env (e :: entries) u =
      (if env.accAddressFromBech32 e.userAddress = some u then e.nominal.amount else 0) +
        demand env entries u := by
  unfold demand
  by_cases h : env.accAddressFromBech32 e.userAddress = some u
  · simp [h]
  · simp [h]

theorem demand_nonneg (h : ∀ e ∈ entries, 0 ≤ e.nominal.amount) (u : Addr) :
    0 ≤ demand env entries u := by
  induction entries with
  | nil => exact Int.le_refl 0
  | cons e _ ih =>
    have hrest := ih fun e he => h e (.tail _ he)
    have he := h e (.head _)
    rw [demand_cons]
    split <;> omega

/-- A fee that an entry is charged for, and what it is charged. -/
theorem EntryStep.paid_le {e : SettlementEntry} {fee : Coin} {asSuccess : Bool}
    (hvalid : params.validate = none) (hdenom : e.nominal.denom = defaultDenom)
    (hnn : 0 ≤ e.nominal.amount) (hfee : actualFee params e = .ok fee)
    (hcharge : Charge params fee.amount balance p asSuccess) : p.paid ≤ e.nominal.amount := by
  obtain ⟨hfee0, hle⟩ := (actualFee_spec hdenom hfee).2 hnn
  cases hcharge with
  | success _ pay =>
    have := pay.paid
    omega
  | fail _ pay =>
    have := pay.paid
    have := failFee_le hvalid hfee0
    omega

/-- A fair entry that its user can pay adds to the kept amounts what it adds to
the pool. -/
theorem EntryStep.pool {e : SettlementEntry} (h : EntryStep env height params e l l' x c)
    (hratios : params.RatiosSum) (hvalid : params.validate = none) (hfair : FairEntry params e)
    (hcover : ∀ u, env.accAddressFromBech32 e.userAddress = some u →
    e.nominal.amount ≤ l.balanceOf u) :
    0 ≤ c ∧ c * params.multiVerificationFundRatio.toNat + 1000 * l.keptIn (height.tdiv 100) ≤
    1000 * l'.keptIn (height.tdiv 100) := by
  obtain ⟨hnn, hsuccess, hfail⟩ := hfair
  cases h with
  | skipped => omega
  | parked => exact ⟨Int.le_refl 0, by rw [Int.zero_mul, Int.zero_add]; exact Int.le_refl _⟩
  | refused u =>
    refine ⟨Int.le_refl 0, ?_⟩
    rw [keptIn_congr (l.log_release u e.taskId)]
    omega
  | unpaid _ _ _ status perToken => grind
  | charged u _ adm fee hfee ia account p _ _ charge recorded =>
    obtain ⟨hfee0, hle⟩ := (actualFee_spec adm.denom hfee).2 hnn
    have hbalance : l.balanceOf u = ia.balance.amount := by
      rw [← l.balanceOf_release u e.taskId u, balanceOf_of_get account]
    have hcover := hcover u adm.user
    have hlog : ((l.release u e.taskId).settle height ia p
        (recordOf height e (chargedStatus (e.status == .success)) recorded)).log =
        (height, .settled p) :: l.log := by
      rw [← l.log_release u e.taskId]
      rfl
    rw [keptIn_cons hlog]
    simp only [Effect.keptIn, if_true]
    by_cases hstatus : e.status = .success
    · have hb : (e.status == .success) = true := by simpa using hstatus
      rw [hb] at charge
      have hwhole := hsuccess hstatus fee (by rw [hfee]; rfl)
      obtain ⟨hpaid, hpool⟩ := charge.success_pool hfee0 (by omega) hwhole
      rw [if_pos hstatus]
      omega
    · have hb : (e.status == .success) = false := by simpa using hstatus
      rw [hb] at charge
      obtain ⟨hper, hratio, hwhole⟩ := hfail hstatus
      have hfixed : fee = e.fee := by
        rw [actualFee, if_neg (by simp [hper])] at hfee
        exact (Except.ok.inj hfee).symm
      have hpool := charge.fail_pool hratios hfee0
        (by have := failFee_le hvalid hfee0; omega) hratio (hfixed ▸ hwhole)
      rw [if_neg hstatus]
      omega

/-- An entry takes at most its nominal amount, and from its user only. -/
theorem EntryStep.balance_ge {e : SettlementEntry} (h : EntryStep env height params e l l' x c)
    (hvalid : params.validate = none) (hnn : 0 ≤ e.nominal.amount) (b : Addr) :
    l.balanceOf b - (if env.accAddressFromBech32 e.userAddress = some b then e.nominal.amount
      else 0) ≤ l'.balanceOf b := by
  cases h with
  | skipped => split <;> omega
  | parked =>
    have : (park height l e).balanceOf b = l.balanceOf b := rfl
    split <;> omega
  | refused =>
    rw [balanceOf_release]
    split <;> omega
  | unpaid u =>
    have : ((l.release u e.taskId).setSettledTask
        (recordOf height e .failSettled Coin.zero)).balanceOf b = l.balanceOf b :=
      l.balanceOf_release u e.taskId b
    split <;> omega
  | charged u _ adm _ hfee ia account p _ _ charge recorded =>
    have hpaid := EntryStep.paid_le hvalid adm.denom hnn hfee charge
    have hdebit : ((l.release u e.taskId).settle height ia p
        (recordOf height e (chargedStatus (e.status == .success)) recorded)).balanceOf b =
        if u = b then (l.release u e.taskId).balanceOf b - p.paid
        else (l.release u e.taskId).balanceOf b := balanceOf_debit account p.paid b
    rw [hdebit, balanceOf_release, adm.user]
    simp only [Option.some.injEq]
    split <;> omega

/-- A batch of fair entries that its users can pay. -/
theorem Steps.pool (h : Steps env height params fees (entries.map .entry) l l' x c)
    (hratios : params.RatiosSum) (hvalid : params.validate = none)
    (hfair : ∀ e ∈ entries, FairEntry params e) (hl : l.Billed)
    (hcover : ∀ u, demand env entries u ≤ l.balanceOf u) :
    0 ≤ c ∧ c * params.multiVerificationFundRatio.toNat + 1000 * l.keptIn (height.tdiv 100) ≤
    1000 * l'.keptIn (height.tdiv 100) := by
  -- the demand of the entries that are left stays covered
  induction entries generalizing l x c with
  | nil =>
    cases h
    omega
  | cons e entries ih =>
    have hfair' : ∀ e ∈ entries, FairEntry params e := fun e he => hfair e (.tail _ he)
    have hnn := (hfair e (.head _)).1
    have hrest : ∀ u, 0 ≤ demand env entries u := demand_nonneg fun e he => (hfair' e he).1
    cases h with
    | cons step rest =>
      have hbilled := step.billed (fun e' he => by cases he; exact hnn) hl
      cases step with
      | idle =>
        obtain ⟨hc, hpool⟩ := ih rest hfair' hbilled fun u => by
          have := hcover u
          rw [demand_cons] at this
          split at this <;> omega
        rw [Int.zero_add]
        exact ⟨hc, hpool⟩
      | entry step =>
        have hfirst := step.pool hratios hvalid (hfair e (.head _)) fun u hu => by
          have := hcover u
          have := hrest u
          rw [demand_cons, if_pos hu] at *
          omega
        obtain ⟨hc, hpool⟩ := ih rest hfair' hbilled fun u => by
          have := hcover u
          have := step.balance_ge hvalid hnn u
          rw [demand_cons] at *
          omega
        refine ⟨by omega, ?_⟩
        rw [Int.add_mul]
        omega

/-! ## the fund over a run -/

/-- The pool is covered by what was kept back, and so is what was sent; nothing
was sent yet for the epochs that are closed at `bound` or later. -/
structure FundCovered (params : Params) (fees : Int → Int) (bound : Int) (l : Ledger) :
    Prop where
  pool : ∀ epoch, fees epoch * params.multiVerificationFundRatio.toNat ≤ 1000 * l.keptIn epoch
  counted : ∀ epoch, 0 ≤ fees epoch
  sent : ∀ epoch, l.sentIn epoch ≤ l.keptIn epoch
  unsent : ∀ epoch, bound ≤ 100 * (epoch + 1) → l.sentIn epoch = 0

theorem FundCovered.later {bound' : Int} (h : FundCovered params fees bound l)
    (hle : bound ≤ bound') : FundCovered params fees bound' l :=
  ⟨h.pool, h.counted, h.sent, fun e he => h.unsent e (hle.trans he)⟩

theorem FundCovered.retains (h : FundCovered params fees bound l) (hretains : Retains l l') :
    FundCovered params fees bound l' where
  pool := fun epoch => by
    have := h.pool epoch
    have := hretains.kept epoch
    omega
  counted := h.counted
  sent := fun epoch => by
    rw [hretains.sent]
    exact (h.sent epoch).trans (hretains.kept epoch)
  unsent := fun epoch hle => (hretains.sent epoch).trans (h.unsent epoch hle)

theorem Steps.retains (h : Steps env height params fees labs l l' x c) (hratios : params.RatiosSum)
    (hlabs : ∀ lab ∈ labs, lab.Nonnegative ∧ ∀ epoch, lab ≠ .fund epoch) (hl : l.Billed) :
    Retains l l' := by
  refine (h.invariant (I := fun l₁ => l₁.Billed ∧ Retains l l₁) ⟨hl, .of_log rfl⟩ ?_).2
  intro lab hlab l₁ l₂ x c hI hstep
  obtain ⟨hnn, hfund⟩ := hlabs lab hlab
  exact ⟨hstep.billed hnn hI.1, hI.2.trans (hstep.retains hratios hnn hfund hI.1)⟩

/-- Only the entries of a batch are counted. -/
theorem LedgerStep.counted (h : LedgerStep env height params fees l lab l' x c)
    (hlab : ∀ e, lab ≠ .entry e) : c = 0 := by
  cases h with
  | entry => exact absurd rfl (hlab _)
  | _ => rfl

theorem Steps.counted (h : Steps env height params fees labs l l' x c)
    (hlabs : ∀ lab ∈ labs, ∀ e, lab ≠ .entry e) : c = 0 := by
  induction h with
  | nil => rfl
  | cons step _ ih =>
    have hstep := step.counted (hlabs _ (.head _))
    have hrest := ih fun lab hlab => hlabs lab (.tail _ hlab)
    omega

/-- The payout at an epoch boundary. -/
theorem FundCovered.payout {epoch : Int} (h : FundCovered params fees bound l)
    (hbound : bound = 100 * (epoch + 1)) (step : FundStep height params epoch (fees epoch) l l' x) :
    FundCovered params fees (bound + 1) l' := by
  cases step with
  | idle => exact h.later (by omega)
  | paid _ _ within =>
    have hlog : (l.note height (.fundPaid epoch x)).log =
        (height, .fundPaid epoch x) :: l.log := rfl
    have hkept : ∀ e, (l.note height (.fundPaid epoch x)).keptIn e = l.keptIn e := by
      intro e
      exact Int.zero_add _
    have hsent : ∀ e, (l.note height (.fundPaid epoch x)).sentIn e =
        (if epoch = e then x else 0) + l.sentIn e := sentIn_cons hlog
    refine ⟨fun e => hkept e ▸ h.pool e, h.counted, fun e => ?_, fun e he => ?_⟩
    · rw [hkept, hsent]
      split
      · next he =>
        subst he
        have hfloor : 1000 * fundPart params (fees epoch) ≤ 1000 * l.keptIn epoch := by
          have hnn : 0 ≤ fees epoch * params.multiVerificationFundRatio.toNat :=
            mul_nonneg (h.counted epoch) (Int.natCast_nonneg _)
          have := h.pool epoch
          rw [fundPart, Int.tdiv_eq_ediv_of_nonneg hnn]
          omega
        have := within (h.counted epoch)
        have := h.unsent epoch (by omega)
        omega
      · rw [Int.zero_add]
        exact h.sent e
    · rw [hsent, if_neg (by omega), Int.zero_add]
      exact h.unsent e (by omega)

/-- The batches of a run the fund is safe in: ratios that do not wrap, fair
entries, and users whose balance covers all entries that name them. -/
def FairBatches (env : Env) (c : Chain) (ev : Event) : Prop :=
  c.state.params.RatiosSum ∧
  (∀ e ∈ ev.entries, FairEntry c.state.params e) ∧
  ∀ e ∈ ev.entries, ∀ u ∈ env.accAddressFromBech32 e.userAddress,
    demand env ev.entries u ≤ c.state.ledger.balanceOf u

instance (c : Chain) (ev : Event) : Decidable (FairBatches env c ev) :=
  inferInstanceAs (Decidable (_ ∧ (∀ e ∈ ev.entries, _) ∧ ∀ e ∈ ev.entries, _))

/-- A user that no entry names is asked for nothing. -/
theorem FairBatches.covered {c : Chain} (h : FairBatches env c ev) (hl : c.state.ledger.Funded)
    (u : Addr) : demand env ev.entries u ≤ c.state.ledger.balanceOf u := by
  by_cases hu : ∃ e ∈ ev.entries, env.accAddressFromBech32 e.userAddress = some u
  · obtain ⟨e, he, huser⟩ := hu
    exact h.2.2 e he u huser
  · have hnone : ev.entries.filter
        (fun e => env.accAddressFromBech32 e.userAddress = some u) = [] := by
      refine List.filter_eq_nil_iff.mpr fun e he => ?_
      simpa using fun huser => hu ⟨e, he, huser⟩
    rw [demand, hnone]
    exact hl u

theorem FairBatches.nonnegative {c : Chain} (h : FairBatches env c ev) : NonnegativeBatches c ev :=
  fun e he => (h.2.1 e he).1

/-- The invariant of a run: the books and the fund. -/
structure FundSafe (c : Chain) : Prop where
  billed : c.state.ledger.Billed
  covered : FundCovered c.state.params c.state.book.fees c.ctx.height c.state.ledger

/-- A batch adds the same to both sides. -/
theorem FundSafe.batch {c : Chain} {msg : MsgBatchSettlement} (hc : FundSafe c)
    (hvalid : c.state.params.validate = none) (hev : FairBatches env c (.tx (.batchSettlement msg)))
    (h : Performed env (.tx (.batchSettlement msg)) c c' x y) :
    FundCovered c'.state.params c'.state.book.fees c'.ctx.height c'.state.ledger := by
  have hctx := h.stays (by simp)
  have hnn := hev.nonnegative
  have hretains := h.steps.retains hev.1 (fun lab hlab => ⟨hnn.label hlab, by
    rintro epoch rfl
    simp [Event.script, Msg.script] at hlab⟩) hc.billed
  have hcovered := hc.covered.retains hretains
  have hsteps : Steps env c.ctx.height c.state.params c.state.book.fees
    (msg.entries.map .entry) c.state.ledger c'.state.ledger x y := h.steps
  obtain ⟨hy, hpool⟩ := hsteps.pool hev.1 hvalid hev.2.1 hc.billed (hev.covered hc.billed.funded)
  rw [h.params, hctx]
  refine ⟨fun epoch => ?_, fun epoch => ?_, hcovered.sent, hcovered.unsent⟩
  · rw [h.fees, Int.add_mul]
    split
    · next he =>
      have := hc.covered.pool epoch
      rw [he] at *
      change y * _ + 1000 * c.state.ledger.keptIn c.ctx.epoch ≤
        1000 * c'.state.ledger.keptIn c.ctx.epoch at hpool
      omega
    · have := hcovered.pool epoch
      omega
  · have := hc.covered.counted epoch
    rw [h.fees]
    split <;> omega

/-- An event other than a batch and an EndBlock counts and sends nothing. -/
theorem FundSafe.other {c : Chain} (hc : FundSafe c) (hev : FairBatches env c ev)
    (hbatch : ∀ msg, ev ≠ .tx (.batchSettlement msg)) (hend : ∀ next, ev ≠ .endBlock next)
    (h : Performed env ev c c' x y) :
    FundCovered c'.state.params c'.state.book.fees c'.ctx.height c'.state.ledger := by
  have hlabs : ∀ lab ∈ ev.script env c.ctx, (∀ e, lab ≠ .entry e) ∧ ∀ epoch, lab ≠ .fund epoch := by
    intro lab hlab
    cases ev with
    | endBlock next => exact absurd rfl (hend next)
    | outside => simp [Event.script] at hlab
    | tx msg =>
      cases msg with
      | batchSettlement msg => exact absurd rfl (hbatch msg)
      | _ => exact ⟨fun e he => by subst he; simp [Event.script, Msg.script] at hlab,
          fun epoch he => by subst he; simp [Event.script, Msg.script] at hlab⟩
  have hzero := h.steps.counted fun lab hlab => (hlabs lab hlab).1
  have hretains := h.steps.retains hev.1
    (fun lab hlab => ⟨hev.nonnegative.label hlab, (hlabs lab hlab).2⟩) hc.billed
  have hfees : c'.state.book.fees = c.state.book.fees := funext fun epoch => by
    rw [h.fees, hzero, ite_self, Int.add_zero]
  rw [h.params, h.stays hend, hfees]
  exact hc.covered.retains hretains

/-- An EndBlock may pay out the fund of the epoch it closes. -/
theorem FundSafe.endBlock {c : Chain} {next : Ctx} (hc : FundSafe c)
    (hev : FairBatches env c (.endBlock next)) (h : Performed env (.endBlock next) c c' x y) :
    FundCovered c'.state.params c'.state.book.fees c'.ctx.height c'.state.ledger := by
  obtain ⟨hlt, hctx⟩ := h.advances next rfl
  have hzero : y = 0 := h.steps.counted fun lab hlab e he => by
    subst he
    simpa using Event.mem_endBlock hlab
  have hfees : c'.state.book.fees = c.state.book.fees := funext fun epoch => by
    rw [h.fees, hzero, ite_self, Int.add_zero]
  have hsteps : Steps env c.ctx.height c.state.params c.state.book.fees
    ([.cleanup, .sweep false, .sweep true] ++ c.ctx.closing) c.state.ledger c'.state.ledger x y :=
    h.steps
  obtain ⟨l₁, _, _, _, _, hbefore, hclosing, -, -⟩ := hsteps.of_append
  have hcovered : FundCovered c.state.params c.state.book.fees c.ctx.height l₁ :=
    hc.covered.retains (hbefore.retains hev.1
      (fun lab hlab => by simp at hlab; obtain rfl | rfl | rfl := hlab <;> simp [Label.Nonnegative])
      hc.billed)
  have hafter :
      FundCovered c.state.params c.state.book.fees (c.ctx.height + 1) c'.state.ledger := by
    unfold Ctx.closing at hclosing
    split at hclosing
    · next hboundary =>
      have hmem : Label.fund c.ctx.closingEpoch ∈ c.ctx.closing := by
        rw [Ctx.closing, if_pos hboundary]
        exact List.mem_singleton_self _
      have hheight := (Ctx.mem_closing hmem).2
      cases hclosing with
      | cons step rest =>
        rw [rest.eq_of_nil]
        cases step with
        | idle => exact hcovered.later (by omega)
        | fund step => exact hcovered.payout hheight step
    · rw [hclosing.eq_of_nil]
      exact hcovered.later (by omega)
  rw [h.params, hctx, hfees]
  exact hafter.later (by omega)

theorem AtGenesis.fundSafe {c : Chain} (h : AtGenesis env c) : FundSafe c := by
  have hlog : c.state.ledger.log = [] := by
    rw [h.initial.only]
    rfl
  have hkept : ∀ epoch, c.state.ledger.keptIn epoch = 0 := fun epoch => by
    rw [keptIn, hlog]
    rfl
  have hsent : ∀ epoch, c.state.ledger.sentIn epoch = 0 := fun epoch => by
    rw [sentIn, hlog]
    rfl
  refine ⟨h.initial.billed, fun epoch => ?_, fun epoch => ?_, fun epoch => ?_, fun epoch _ => ?_⟩
  · rw [h.fees, hkept, Int.zero_mul, Int.mul_zero]
  · rw [h.fees]
  · rw [hsent, hkept]
  · exact hsent epoch

/-- **The fund is never paid out of user deposits** in a run of fair batches:
for every epoch, what is sent is at most what its settlements kept back. -/
theorem fund_within_kept {c₀ c : Chain} (hgenesis : AtGenesis env c₀)
    (run : Run env (FairBatches env) c₀ c) (epoch : Int) :
    c.state.ledger.sentIn epoch ≤ c.state.ledger.keptIn epoch := by
  have hsafe : FundSafe c := by
    refine run.preserves hgenesis hgenesis.fundSafe fun c ev c' x y hwf hc hev hp => ?_
    have hbilled : c'.state.ledger.Billed := hp.steps.invariant hc.billed
      fun _ hlab _ _ _ _ hl hstep => hstep.billed (hev.nonnegative.label hlab) hl
    refine ⟨hbilled, ?_⟩
    by_cases hbatch : ∃ msg, ev = .tx (.batchSettlement msg)
    · obtain ⟨msg, rfl⟩ := hbatch
      exact hc.batch hwf.params hev hp
    · by_cases hend : ∃ next, ev = .endBlock next
      · obtain ⟨next, rfl⟩ := hend
        exact hc.endBlock hev hp
      · exact hc.other hev (fun msg he => hbatch ⟨msg, he⟩) (fun next he => hend ⟨next, he⟩) hp
  exact hsafe.covered.sent epoch

/-- A success, a fail and a vote in one epoch: the fund pays 60 of the 180 that
were kept. -/
theorem fund_within_kept_devnet :
    ∃ c, Run devEnv (FairBatches devEnv) (devnet .default [("user", 10000)]) c ∧
      c.state.ledger.sentIn 0 = 60 ∧ c.state.ledger.keptIn 0 = 180 ∧
      ∀ epoch, c.state.ledger.sentIn epoch ≤ c.state.ledger.keptIn epoch := by
  refine exists_and_imp (q := fun c => c.state.ledger.sentIn 0 = 60 ∧ c.state.ledger.keptIn 0 = 180)
    (Run.exists_of_exec [devBatch [devEntry [255] "user" 1000 500, devFail [254] "user" 1000 500,
          devEntry [16] "user" 1000 500],
        devVote "auditor" [16] true, devEndBlock 100, devEndBlock 101] (by decide +kernel)) ?_
  rintro c run ⟨hsent, hkept⟩
  exact ⟨hsent, hkept, fund_within_kept (atGenesis_devnet Params.default_valid (by decide)) run⟩

/-- A fail whose user has ten coins left counts in full: the fund pays 30, and
only 10 were kept. -/
theorem fund_exceeds_kept : AtGenesis devEnv (devnet .default [("poor", 10), ("rich", 10000)]) ∧
      ∃ c, Run devEnv (fun _ _ => True) (devnet .default [("poor", 10), ("rich", 10000)]) c ∧
        c.state.ledger.sentIn 0 = 30 ∧ c.state.ledger.keptIn 0 = 10 :=
  ⟨atGenesis_devnet Params.default_valid (by decide), Run.exists_of_exec
      [devBatch [devFail [254] "poor" 1000 500, devEntry [16] "rich" 1000 500],
        devVote "auditor" [16] true, devEndBlock 100, devEndBlock 101] (by decide +kernel)⟩

end FunaiChain.Settlement
