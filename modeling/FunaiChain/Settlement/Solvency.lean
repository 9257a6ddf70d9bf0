import FunaiChain.Settlement.Credit

/-!
# FunaiChain.Settlement.Solvency

The coins behind the balances.  Whatever a step pays out of the settlement
account it first takes from a balance, as long as no amount is negative and
the fee ratios make up the whole; only the payout of the fund does not
(`Steps.covers`).

The law is stated over calls of the keeper in any order and any block
(`Calls`), which is more than the runs of the chain make: EndBlock makes its
calls in one order, and no code writes to the expiry index that
`HandleFrozenBalanceTimeouts` reads (`solvency_step_law`, `Chain.step_calls`).
It needs the settlement account to stay out of the game: its own deposit is a
send to itself, which credits a balance with coins that others own
(`own_deposit_lowers_surplus`).
-/

namespace FunaiChain.Settlement

open Ledger

variable {env : Env} {height : Int} {params : Params} {fees : Int → Int}
variable {l l' : Ledger} {x : Int} {Rel : Addr → TaskId → Prop} {lab : Label} {m : FrozenTaskMeta}
  {call : Call}

/-! ## the coins behind the balances -/

theorem MoneyStep.covers (h : MoneyStep height params (0 ≤ ·) Rel l l' x)
    (hratios : params.RatiosSum) (hl : l.Funded) : l'.totalBalance + x ≤ l.totalBalance := by
  cases h with
  | idle money =>
    rw [totalBalance_congr (accounts_of_money money)]
    omega
  | release =>
    rw [totalBalance_release]
    omega
  | charge _ p _ _ hfee account charge money =>
    have hbalance := hl p.user
    rw [balanceOf_of_get account] at hbalance
    have hout := charge.out_le hratios hfee hbalance
    have htotal : l'.totalBalance = l.totalBalance - p.paid :=
      (totalBalance_congr (accounts_of_money money)).trans
        (totalBalance_debit account p.paid)
    omega

theorem MoneyPath.covers (h : MoneyPath height params (0 ≤ ·) Rel l l' x)
    (hratios : params.RatiosSum) (hl : l.Funded) : l'.totalBalance + x ≤ l.totalBalance := by
  induction h with
  | refl => omega
  | tail before step =>
    have := step.covers hratios (before.lowers hl).1
    omega

/-- What a step pays out of the settlement account it takes from balances; only
the payout of the fund does not. -/
theorem AccountStep.covers (h : AccountStep env height params fees (0 ≤ ·) Rel l lab l' x)
    (hratios : params.RatiosSum) (hl : l.Funded) (hlab : ∀ epoch, lab ≠ .fund epoch) :
    l'.totalBalance + x ≤ l.totalBalance := by
  cases h with
  | deposit =>
    rw [totalBalance_credit]
    omega
  | withdraw _ _ _ _ account =>
    rw [totalBalance_debit account]
    omega
  | reserve row u ia n res =>
    have : ((l.freeze ia row.taskId n).note height (.reserved row.taskId u (MathInt.ofUInt64 n)
        row.expireBlock)).totalBalance = l.totalBalance :=
      totalBalance_update res.account _
    omega
  | path _ path => exact path.covers hratios hl
  | refund _ money =>
    rw [totalBalance_congr (accounts_of_money money)]
    omega
  | fund epoch => exact absurd rfl (hlab epoch)

/-- The labels of a script that pays nothing from the fund. -/
def Label.Covered (lab : Label) : Prop := lab.Nonnegative ∧ ∀ epoch, lab ≠ .fund epoch

theorem Steps.covers {labs : List Label} {c : Int} (h : Steps env height params fees labs l l' x c)
    (hratios : params.RatiosSum) (hlabs : ∀ lab ∈ labs, lab.Covered) (hl : l.Billed) :
    l'.totalBalance + x ≤ l.totalBalance := by
  induction h with
  | nil => omega
  | @cons lab labs l l₁ l₂ x y c d step rest ih =>
    obtain ⟨hnn, hfund⟩ := hlabs lab (.head _)
    have hrest := ih (fun lab hlab => hlabs lab (.tail _ hlab)) (step.billed hnn hl)
    have := (step.account_nonneg hnn hl.billable).covers hratios hl.funded hfund
    omega

/-! ## expired reservations -/

/-- A turn of the sweep over reservations keeps the books and lowers the total
at most. -/
theorem ExpiryStep.keeps (h : ExpiryStep env height params m l l') (hl : l.Billed) :
    l'.Billed ∧ l'.totalBalance ≤ l.totalBalance ∧ (l.Denominated → l'.Denominated) := by
  cases h with
  | dropped => exact ⟨⟨hl.funded, hl.billable⟩, Int.le_refl _, fun hdenom => hdenom⟩
  | skipped => exact ⟨hl, Int.le_refl _, fun hdenom => hdenom⟩
  | uncharged u =>
    refine ⟨⟨fun a => ?_, hl.billable.congr fun third => ?_⟩, ?_, fun hdenom => ?_⟩
    · exact (l.balanceOf_release u m.taskId a).symm ▸ hl.funded a
    · exact l.queue_release u m.taskId third
    · exact Int.le_of_eq (l.totalBalance_release u m.taskId)
    · exact hdenom.release u m.taskId
  | charged u _ ia account fee hfee =>
    have hnn : 0 ≤ fee := hfee ▸ MathInt.ofUInt64_nonneg _
    refine ⟨⟨fun a => ?_, hl.billable.congr fun third => ?_⟩, ?_, fun hdenom => ?_⟩
    · have hdebit : ((l.release u m.taskId).settle height ia ⟨m.taskId, u, fee, fee, 0, 0⟩
          (expiryRecordOf height m)).balanceOf a = _ := balanceOf_debit account fee a
      rw [hdebit]
      split
      · next ha =>
        rw [← ha, balanceOf_of_get account]
        omega
      · exact (l.balanceOf_release u m.taskId a).symm ▸ hl.funded a
    · exact ((l.release u m.taskId).queue_settle _ _ _ _ third).trans
        (l.queue_release u m.taskId third)
    · have htotal : ((l.release u m.taskId).settle height ia ⟨m.taskId, u, fee, fee, 0, 0⟩
          (expiryRecordOf height m)).totalBalance = (l.release u m.taskId).totalBalance - fee :=
        totalBalance_debit account fee
      have := l.totalBalance_release u m.taskId
      omega
    · have hrelease := hdenom.release u m.taskId
      exact hrelease.debit fee (hrelease u ia account)

/-! ## calls of the keeper -/

/-- A call of the keeper.  A block makes them in a fixed order; the law below
holds for any. -/
inductive Call
  | tx (msg : Msg)
  | cleanup
  | auditTimeouts
  | frozenTimeouts
  | rates (epoch : Int)
  | fund (epoch : Int)
  | storeMeta (m : FrozenTaskMeta)
  | outside (o : Outside)

namespace Call

variable (env : Env)

def run (ctx : Ctx) (s : State) : Call → Exec State
  | .tx msg => .ok (deliver env ctx s msg)
  | .cleanup => .ok (cleanupExpiredTasks ctx s)
  | .auditTimeouts => handleSecondVerificationTimeouts env ctx s
  | .frozenTimeouts => handleFrozenBalanceTimeouts env ctx s
  | .rates epoch => .ok (updateRates env s epoch)
  | .fund epoch => distributeMultiVerificationFund env ctx s epoch
  | .storeMeta m => .ok (storeFrozenTaskMeta s m)
  | .outside o => .ok (applyOutside env s o)

/-- A batch names no negative fee and no negative price cap. -/
def Nonnegative : Call → Prop
  | .tx (.batchSettlement msg) => ∀ e ∈ msg.entries, 0 ≤ e.fee.amount ∧ 0 ≤ e.maxFee.amount
  | _ => True

theorem Nonnegative.label {msg : Msg} (h : (Call.tx msg).Nonnegative)
    (hlab : lab ∈ msg.script env) : lab.Covered := by
  refine ⟨fun e he => ?_, fun epoch he => ?_⟩
  · subst he
    cases msg with
    | batchSettlement msg =>
      have hmem : e ∈ msg.entries := by simpa [Msg.script] using hlab
      obtain ⟨hfee, hcap⟩ := h e hmem
      unfold SettlementEntry.nominal
      split
      · exact hcap
      · exact hfee
    | _ => simp [Msg.script] at hlab
  · subst he
    cases msg <;> simp [Msg.script] at hlab

end Call

/-- Calls in any order and in any block. -/
inductive Calls (env : Env) (P : Call → Prop) (s₀ : State) : State → Prop
  | start : Calls env P s₀ s₀
  | call {s s' : State} (calls : Calls env P s₀ s) (ctx : Ctx) (call : Call) (cond : P call)
      (next : call.run env ctx s = .ok s') : Calls env P s₀ s'

/-- The settlement account neither deposits nor is registered as a worker. -/
def Call.Foreign (env : Env) : Call → Prop
  | .tx (.deposit msg) => env.accAddressFromBech32 msg.creator ≠ some env.settlementAccount
  | .outside o => (o.workers.get env.settlementAccount).isSome = false
  | _ => True

theorem Call.Foreign.script {msg : Msg} (h : (Call.tx msg).Foreign env) :
    Settlement.Foreign env (msg.script env) := by
  intro _ y hlab
  cases msg with
  | deposit msg =>
    obtain ⟨a, ha, he⟩ := List.mem_map.mp hlab
    cases he
    exact h (Option.mem_toList.mp ha)
  | _ => simp [Msg.script] at hlab

/-- What the bank holds for the module beyond the balances. -/
def State.surplus (env : Env) (s : State) : Int := s.moduleBalance env - s.ledger.totalBalance

/-- The books are in order. -/
structure Booked (env : Env) (s : State) : Prop extends Orderly env s where
  billed : s.ledger.Billed

/-- The books stay in order, and on a condition the surplus does not shrink. -/
structure Kept (env : Env) (foreign : Prop) (s s' : State) : Prop where
  booked : Booked env s'
  params : s'.params = s.params
  apart : foreign → s.Apart env → s'.Apart env
  surplus : foreign → s.Apart env → s.params.RatiosSum → s.surplus env ≤ s'.surplus env

section Kept
variable {ctx : Ctx} {s s' s'' : State} {labs : List Label} {c : Int} {foreign : Prop}

theorem Kept.refl (h : Booked env s) : Kept env foreign s s :=
  ⟨h, rfl, fun _ hs => hs, fun _ _ _ => Int.le_refl _⟩

theorem Kept.trans (h : Kept env foreign s s') (h' : Kept env foreign s' s'') :
    Kept env foreign s s'' where
  booked := h'.booked
  params := h'.params.trans h.params
  apart := fun hf hs => h'.apart hf (h.apart hf hs)
  surplus := fun hf hs hratios => (h.surplus hf hs hratios).trans
    (h'.surplus hf (h.apart hf hs) (h.params.symm ▸ hratios))

theorem Performs.booked (h : Performs env ctx labs s s' x c)
    (hlabs : ∀ lab ∈ labs, lab.Nonnegative) (hs : Booked env s) : Booked env s' where
  toOrderly := h.orderly hs.toOrderly
  billed := h.steps.invariant hs.billed fun lab hlab _ _ _ _ hl hstep =>
    hstep.billed (hlabs lab hlab) hl

theorem Performs.kept (h : Performs env ctx labs s s' x c)
    (hlabs : ∀ lab ∈ labs, lab.Covered) (hforeign : foreign → Foreign env labs)
    (hs : Booked env s) : Kept env foreign s s' where
  booked := h.booked (fun lab hlab => (hlabs lab hlab).1) hs
  params := h.params
  apart := fun _ => (h.registered _).trans
  surplus := fun hf hapart hratios => by
    have hcovers := h.steps.covers hratios hlabs hs.billed
    have hbalance := h.balance (hforeign hf) hapart
    simp only [State.surplus]
    omega

/-- Bookkeeping keeps the books. -/
theorem State.Quiet.kept (h : State.Quiet env s s') (hs : Booked env s) :
    Kept env foreign s s' := by
  refine ⟨⟨⟨h.ledger ▸ hs.denominated, fun a ha => ?_⟩, h.ledger ▸ hs.billed⟩, h.params,
    fun _ => (h.world.registered _).trans, fun _ _ _ => ?_⟩
  · exact hs.signed a (h.world.registered a ▸ ha)
  · rw [State.surplus, State.surplus, h.moduleBalance_eq, h.ledger]

theorem cleanup_kept (hs : Booked env s) : Kept env foreign s (cleanupExpiredTasks ctx s) := by
  have hp : Performs env ctx [.cleanup] s (cleanupExpiredTasks ctx s) 0 0 :=
    .of_moves (.single .cleanup) ((State.Moves.refl s).map _)
  exact hp.kept (by simp [Label.Covered, Label.Nonnegative]) (by simp [Foreign]) hs

theorem sweepQueue_kept (third : Bool) (hs : Booked env s)
    (h : sweepQueue env ctx third (s.params.timeoutOf third) s = .ok s') :
    Kept env foreign s s' := by
  obtain ⟨x, hp⟩ := (sweepQueue_performs third hs.toOrderly).get h
  exact hp.kept (by simp [Label.Covered, Label.Nonnegative]) (by simp [Foreign]) hs

theorem auditTimeouts_kept (hs : Booked env s)
    (h : handleSecondVerificationTimeouts env ctx s = .ok s') : Kept env foreign s s' := by
  obtain ⟨s₁, hsecond, hthird⟩ := bind_eq_ok.mp h
  have h₁ : Kept env foreign s s₁ := sweepQueue_kept false hs hsecond
  exact h₁.trans (sweepQueue_kept true h₁.booked hthird)

theorem expiryTurn_kept (hs : Booked env s) :
    OnValue (Kept env foreign s) (expiryTurn env ctx s m) := by
  refine expiryTurn_cases.mono ?_
  rintro s' ⟨l', hstep, hmove⟩
  obtain ⟨hbilled, htotal, hdenom⟩ := hstep.keeps hs.billed
  refine ⟨⟨⟨?_, fun a ha => ?_⟩, ?_⟩, hmove.params, fun _ => hmove.apart, fun _ hapart _ => ?_⟩
  · exact hmove.ledger ▸ hdenom hs.denominated
  · exact hs.signed a (hmove.registered a ▸ ha)
  · exact hmove.ledger ▸ hbilled
  · have hbalance := hmove.balance hapart
    simp only [State.surplus, hmove.ledger]
    omega

theorem frozenTimeouts_kept (hs : Booked env s) :
    OnValue (Kept env foreign s) (handleFrozenBalanceTimeouts env ctx s) := by
  refine .either (.ok (.refl hs)) <| OnValue.bind (Q := Kept env foreign s) ?_ fun s₁ h₁ => ?_
  · exact .foldlM _ (fun _ _ hk => (expiryTurn_kept hk.booked).mono fun _ => hk.trans) (.refl hs)
  -- dropping index rows touches no account and no queue
  · exact .ok ⟨⟨⟨h₁.booked.denominated, h₁.booked.signed⟩, h₁.booked.billed.funded,
      h₁.booked.billed.billable⟩, h₁.params, h₁.apart, h₁.surplus⟩

theorem outside_kept (o : Outside) (hs : Booked env s) :
    Kept env ((Call.outside o).Foreign env) s (applyOutside env s o) := by
  refine ⟨⟨⟨hs.denominated, fun _ => signs_applyOutside⟩, hs.billed⟩, rfl, fun hf _ => ?_,
    fun _ _ _ => ?_⟩
  · have hnone : o.workers.get env.settlementAccount = none := by simpa [Call.Foreign] using hf
    simp [State.Apart, applyOutside, Table.get_filter, hnone]
  simp only [State.surplus, State.moduleBalance, applyOutside, if_true]
  omega

/-- Every call but the payout of the fund keeps the books. -/
theorem Call.kept (hcall : call.Nonnegative) (hfund : ∀ epoch, call ≠ .fund epoch)
    (hs : Booked env s) (next : call.run env ctx s = .ok s') :
    Kept env (call.Foreign env) s s' := by
  cases call with
  | tx msg =>
    cases next
    obtain ⟨x, c, hp⟩ := deliver_performs hs.toOrderly msg
    exact hp.kept (fun lab hlab => hcall.label env hlab) Call.Foreign.script hs
  | cleanup =>
    cases next
    exact cleanup_kept hs
  | auditTimeouts => exact auditTimeouts_kept hs next
  | frozenTimeouts => exact (frozenTimeouts_kept hs).get next
  | rates epoch =>
    cases next
    have hquiet : State.Quiet env s (updateRates env s epoch) := State.Quiet.ofBook rfl
    exact hquiet.kept hs
  | fund epoch => exact absurd rfl (hfund epoch)
  | storeMeta =>
    cases next
    exact ⟨⟨⟨hs.denominated, hs.signed⟩, hs.billed.funded, hs.billed.billable⟩, rfl,
      fun _ hapart => hapart, fun _ _ _ => Int.le_refl _⟩
  | outside o =>
    cases next
    exact outside_kept o hs

theorem Call.booked (hcall : call.Nonnegative) (hs : Booked env s)
    (next : call.run env ctx s = .ok s') : Booked env s' ∧ s'.params = s.params := by
  by_cases hfund : ∃ epoch, call = .fund epoch
  · obtain ⟨epoch, rfl⟩ := hfund
    obtain ⟨l', out, hstep, hmove⟩ := distributeMultiVerificationFund_cases.get next
    have hp : Performs env ctx [.fund epoch] s s' out 0 := .of_moves (.single (.fund hstep)) hmove
    exact ⟨hp.booked (by simp [Label.Nonnegative]) hs, hp.params⟩
  · have hkept := Call.kept hcall (fun epoch he => hfund ⟨epoch, he⟩) hs next
    exact ⟨hkept.booked, hkept.params⟩

end Kept

theorem Calls.booked {s₀ s : State} (h : Calls env Call.Nonnegative s₀ s) (hs : Booked env s₀) :
    Booked env s ∧ s.params = s₀.params := by
  induction h with
  | start => exact ⟨hs, rfl⟩
  | call _ _ _ cond next ih =>
    obtain ⟨hbooked, hparams⟩ := Call.booked cond ih.1 next
    exact ⟨hbooked, hparams.trans ih.2⟩

/-- No batch names a negative amount, and the settlement account acts neither as a
user nor as a worker. -/
def Call.Ordinary (env : Env) (call : Call) : Prop := call.Nonnegative ∧ call.Foreign env

theorem Call.apart {s s' : State} {ctx : Ctx} (hcall : call.Ordinary env) (hs : Booked env s)
    (hapart : s.Apart env) (next : call.run env ctx s = .ok s') : s'.Apart env := by
  by_cases hfund : ∃ epoch, call = .fund epoch
  · obtain ⟨epoch, rfl⟩ := hfund
    obtain ⟨l', out, hstep, hmove⟩ := distributeMultiVerificationFund_cases.get next
    exact hmove.apart hapart
  · exact (Call.kept hcall.1 (fun epoch he => hfund ⟨epoch, he⟩) hs next).apart hcall.2 hapart

theorem Calls.apart {s₀ s : State} (h : Calls env (Call.Ordinary env) s₀ s) (hs : Booked env s₀)
    (hapart : s₀.Apart env) : Booked env s ∧ s.params = s₀.params ∧ s.Apart env := by
  induction h with
  | start => exact ⟨hs, rfl, hapart⟩
  | call _ _ _ cond next ih =>
    obtain ⟨hbooked, hparams⟩ := Call.booked cond.1 ih.1 next
    exact ⟨hbooked, hparams.trans ih.2.1, Call.apart cond ih.1 ih.2.2 next⟩

/-- The chain makes its events out of calls. -/
theorem Chain.step_calls {P : Call → Prop} {c c' : Chain} {ev : Event} {s₀ : State}
    (hmsg : ∀ msg, ev = .tx msg → P (.tx msg)) (hother : ∀ call, (∀ msg, call ≠ .tx msg) → P call)
    (calls : Calls env P s₀ c.state) (h : c.step env ev = some c') : Calls env P s₀ c'.state := by
  cases ev with
  | tx msg =>
    cases h
    exact calls.call c.ctx (.tx msg) (hmsg msg rfl) rfl
  | endBlock next =>
    simp only [Chain.step] at h
    split at h
    · split at h
      · next s hend =>
        cases h
        obtain ⟨s₁, haudit, hend⟩ := bind_eq_ok.mp hend
        obtain ⟨s₂, hfrozen, hclose⟩ := bind_eq_ok.mp hend
        have hcleanup : Calls env P s₀ (cleanupExpiredTasks c.ctx c.state) :=
          calls.call c.ctx .cleanup (hother _ (by simp)) rfl
        have htimeouts := (hcleanup.call c.ctx .auditTimeouts (hother _ (by simp)) haudit).call
          c.ctx .frozenTimeouts (hother _ (by simp)) hfrozen
        unfold closeEpoch at hclose
        dsimp only at hclose
        split at hclose
        · exact (htimeouts.call c.ctx (.rates _) (hother _ (by simp)) rfl).call c.ctx (.fund _)
            (hother _ (by simp)) hclose
        · grind
      · simp at h
    · simp at h
  | outside o =>
    cases h
    exact calls.call c.ctx (.outside o) (hother _ (by simp)) rfl

/-- **Every run of the chain is made of calls** of the keeper.  With batches that name no negative
amount the parameters stay and no balance is negative. -/
theorem run_calls {c₀ c : Chain} (hgenesis : AtGenesis env c₀)
    (run : Run env (fun _ ev => ∀ msg, ev = .tx msg → (Call.tx msg).Nonnegative) c₀ c) :
    Calls env Call.Nonnegative c₀.state c.state ∧ c.state.params = c₀.state.params ∧
      ∀ a, 0 ≤ c.state.ledger.balanceOf a := by
  have hcalls : Calls env Call.Nonnegative c₀.state c.state := by
    induction run with
    | start => exact .start
    | step _ ev hev next ih =>
      refine Chain.step_calls hev (fun call hcall => ?_) ih next
      cases call with
      | tx msg => exact absurd rfl (hcall msg)
      | _ => trivial
  obtain ⟨hbooked, hparams⟩ :=
    hcalls.booked ⟨hgenesis.wellFormed.toOrderly, hgenesis.initial.billed⟩
  exact ⟨hcalls, hparams, hbooked.billed.funded⟩

instance (ev : Event) : Decidable (∀ msg, ev = .tx msg → (Call.tx msg).Nonnegative) :=
  match ev with
  | .tx msg =>
    decidable_of_iff (∀ e ∈ (Event.tx msg).entries, 0 ≤ e.fee.amount ∧ 0 ≤ e.maxFee.amount)
      (by cases msg <;> simp [Event.entries, Call.Nonnegative])
  | .endBlock _ => .isTrue (by simp)
  | .outside _ => .isTrue (by simp)

/-- A deposit, a batch of which one task is settled and one audited, a vote, the end
of an epoch, which pays the voter out of the fund, and the timeout of the audit. -/
theorem run_calls_devnet :
    ∃ c, Run devEnv (fun _ ev => ∀ msg, ev = .tx msg → (Call.tx msg).Nonnegative)
        (devnet .default [("user", 1000)]) c ∧
      (c.state.ledger.balanceOf (devAddr "user") = 850 ∧
        c.state.ledger.pendingAt false [16] = none ∧ c.state.coinsOf (devAddr "auditor") = 3) ∧
      Calls devEnv Call.Nonnegative (devnet .default [("user", 1000)]).state c.state ∧
      c.state.params = (devnet .default [("user", 1000)]).state.params ∧
      ∀ a, 0 ≤ c.state.ledger.balanceOf a := by
  refine exists_and_imp (q := fun c => c.state.ledger.balanceOf (devAddr "user") = 850 ∧
      c.state.ledger.pendingAt false [16] = none ∧ c.state.coinsOf (devAddr "auditor") = 3)
    (Run.exists_of_exec [devCoins "user" 50, devDeposit "user" 50,
      devBatch [devEntry [255] "user" 100 50000, devEntry [16] "user" 100 50000],
      devVote "auditor" [16] true, devEndBlock 100, devEndBlock 101, devEndBlock 10000,
      devEndBlock 10001] (by decide +kernel)) ?_
  exact fun c run hq => ⟨hq, run_calls atGenesis_user run⟩

/-- **Solvency step law.**  After any calls in which no batch names a negative
amount and the settlement account neither deposits nor is registered as a
worker, with ratios that make up the whole, a further call leaves every
balance non-negative, and only the payout of the fund can lower what the bank
holds for the module beyond the balances. -/
theorem solvency_step_law {c₀ : Chain} {s s' : State} {ctx : Ctx} {call : Call}
    (hgenesis : AtGenesis env c₀) (hapart : c₀.state.Apart env)
    (hratios : c₀.state.params.RatiosSum) (calls : Calls env (Call.Ordinary env) c₀.state s)
    (hcall : call.Ordinary env) (next : call.run env ctx s = .ok s') :
    (∀ a ia, s'.getInferenceAccount a = some ia → 0 ≤ ia.balance.amount) ∧
      ((∀ epoch, call ≠ .fund epoch) → s.surplus env ≤ s'.surplus env) := by
  have hstart : Booked env c₀.state := ⟨hgenesis.wellFormed.toOrderly, hgenesis.initial.billed⟩
  obtain ⟨hbooked, hparams, hapart'⟩ := calls.apart hstart hapart
  constructor
  · intro a ia hia
    have hfunded := (Call.booked hcall.1 hbooked next).1.billed.funded a
    rwa [balanceOf_of_get hia] at hfunded
  · intro hfund
    exact (Call.kept hcall.1 hfund hbooked next).surplus hcall.2 hapart' (hparams ▸ hratios)

/-- A reservation that expires on the devnet: its fee stays with the module. -/
theorem solvency_step_law_devnet :
    ∃ s s', Calls devEnv (Call.Ordinary devEnv) (devnet devBilling [("user", 1000)]).state s ∧
      Call.frozenTimeouts.run devEnv ⟨20, [], []⟩ s = .ok s' ∧ s'.surplus devEnv = 60 ∧
      (∀ a ia, s'.getInferenceAccount a = some ia → 0 ≤ ia.balance.amount) ∧
      s.surplus devEnv ≤ s'.surplus devEnv := by
  have hgenesis : AtGenesis devEnv (devnet devBilling [("user", 1000)]) :=
    atGenesis_devnet (by decide) (by decide)
  have hcalls : Calls devEnv (Call.Ordinary devEnv) (devnet devBilling [("user", 1000)]).state
      (storeFrozenTaskMeta (devnet devBilling [("user", 1000)]).state
        ⟨[7], "user", "worker", 400, 10⟩) :=
    Calls.start.call ⟨1, [], []⟩ (.storeMeta ⟨[7], "user", "worker", 400, 10⟩)
      ⟨trivial, trivial⟩ rfl
  have hnext : ∃ s', Call.frozenTimeouts.run devEnv ⟨20, [], []⟩
      (storeFrozenTaskMeta (devnet devBilling [("user", 1000)]).state
        ⟨[7], "user", "worker", 400, 10⟩) = .ok s' ∧ s'.surplus devEnv = 60 := by decide +kernel
  obtain ⟨s', hrun, hsurplus⟩ := hnext
  have hcall : Call.frozenTimeouts.Ordinary devEnv := ⟨trivial, trivial⟩
  obtain ⟨hnn, hkept⟩ := solvency_step_law hgenesis (by unfold State.Apart; decide +kernel)
    ⟨by decide, by decide, by decide, by decide⟩ hcalls hcall hrun
  exact ⟨_, s', hcalls, hrun, hsurplus, hnn, hkept (by simp)⟩

/-- The settlement account deposits 50 of the coins it holds for the user: it is
credited with them and no coin moves. -/
theorem own_deposit_lowers_surplus :
    AtGenesis devEnv.opened (devnet .default [("user", 1000)]) ∧
      (devnet .default [("user", 1000)]).state.params.RatiosSum ∧
      (Call.tx (.deposit ⟨"\x00", ⟨defaultDenom, 50⟩⟩)).Nonnegative ∧
      ∃ s', (Call.tx (.deposit ⟨"\x00", ⟨defaultDenom, 50⟩⟩)).run devEnv.opened ⟨1, [], []⟩
          (devnet .default [("user", 1000)]).state = .ok s' ∧
        (devnet .default [("user", 1000)]).state.surplus devEnv.opened = 0 ∧
        s'.surplus devEnv.opened = -50 := by
  refine ⟨⟨atGenesis_user.height, atGenesis_user.genesis, fun _ _ => rfl⟩,
    ⟨by decide, by decide, by decide, by decide⟩, trivial, ?_⟩
  decide +kernel

end FunaiChain.Settlement
