import FunaiChain.Settlement.Money

/-!
# FunaiChain.Settlement.Refinement

The chain refines the abstract machine: every event executes its script
(`Chain.step_performed`), in every state that keeps the small invariant
`WellFormed`, which every run does.

`Run.preserves` is the rule the claims about whole runs are proved with: an
invariant of the genesis that scripts keep holds in every state reached.
-/

namespace FunaiChain.Settlement

variable {env : Env} {e : SecondVerificationBatchEntry} {msg : MsgBatchSettlement}
  {ia : InferenceAccount} {acc : ResultAcc}
variable {l : Ledger} {a : Addr} {x : Int} {P : Chain → Event → Prop} {c' c₀ : Chain}
  {r : UInt32 × UInt32} {labs : List Label} {ev : Event} {I : Chain → Prop}

/-! ## well-formed states -/

/-- Balances are held in the default denom and the registered workers are senders
of messages: what the keeper's functions rely on. -/
structure Orderly (env : Env) (s : State) : Prop where
  denominated : s.ledger.Denominated
  signed : ∀ a, (s.world.workers.get a).isSome → env.signs a = true

/-- What holds in every state of a run: besides, the expiry index is empty and
the parameters are valid. -/
structure WellFormed (env : Env) (s : State) : Prop extends Orderly env s where
  unindexed : s.ledger.frozenTaskIndex = ∅
  params : s.params.validate = none

/-- No worker registers under an account in whose name no message arrives. -/
theorem Orderly.apart {s : State} (h : Orderly env s)
    (hkeyless : env.signs env.settlementAccount = false) : s.Apart env := by
  refine Bool.eq_false_iff.mpr fun hsome => ?_
  rw [h.signed _ hsome] at hkeyless
  contradiction

namespace Ledger

theorem Denominated.credit (h : l.Denominated) (a : Addr) (x : Int) :
    (l.credit a x).Denominated := by
  unfold Ledger.credit
  split
  · exact h.set rfl
  · next ia hia =>
    exact @Denominated.set l h { ia with balance := ⟨ia.balance.denom, ia.balance.amount + x⟩ }
      (h a ia hia)

theorem Denominated.freeze (h : l.Denominated) (account : l.getInferenceAccount a = some ia)
    (t : TaskId) (n : UInt64) : (l.freeze ia t n).Denominated :=
  @Denominated.set l h
    { ia with frozenBalance := ⟨defaultDenom, ia.frozenAmount + MathInt.ofUInt64 n⟩ }
    (h a ia account)

theorem frozenTaskIndex_credit (l : Ledger) (a : Addr) (x : Int) :
    (l.credit a x).frozenTaskIndex = l.frozenTaskIndex := by
  unfold Ledger.credit
  split <;> rfl

end Ledger

section Frame
variable {height : Int} {params : Params} {fees : Int → Int} {Fee : Int → Prop}
  {Rel : Addr → TaskId → Prop} {l' : Ledger} {lab : Label} {c : Int}

theorem MoneyPath.denominated (h : MoneyPath height params Fee Rel l l' x)
    (hl : l.Denominated) : l'.Denominated := by
  induction h with
  | refl => exact hl
  | tail _ step ih =>
    cases step with
    | idle money => exact ih.congr (accounts_of_money money)
    | release a t => exact ih.release a t
    | charge ia p _ _ _ account _ money =>
      exact (ih.debit p.paid (ih _ ia account)).congr (congrArg MoneyView.inferenceAccounts money)

theorem MoneyPath.frozenTaskIndex (h : MoneyPath height params Fee Rel l l' x) :
    l'.frozenTaskIndex = l.frozenTaskIndex := by
  induction h with
  | refl => rfl
  | tail _ step ih =>
    cases step with
    | idle money => exact (congrArg MoneyView.frozenTaskIndex money).trans ih
    | release => exact (Ledger.frozenTaskIndex_release ..).trans ih
    | charge _ _ _ _ _ _ _ money =>
      exact (congrArg MoneyView.frozenTaskIndex money).trans ih

variable (h : LedgerStep env height params fees l lab l' x c)
include h

/-- A step as accounting sees it, when nothing is asked of fees and releases. -/
theorem LedgerStep.account_trivial :
    AccountStep env height params fees (fun _ => True) (fun _ _ => True) l lab l' x :=
  h.account (fun _ _ _ _ _ => ⟨trivial, fun _ _ => trivial⟩)
    fun _ _ _ _ => ⟨fun _ _ _ => trivial, fun _ _ => trivial⟩

/-- Every step keeps balances in the default denom. -/
theorem LedgerStep.denominated (hl : l.Denominated) : l'.Denominated := by
  cases h.account_trivial with
  | deposit a x => exact hl.credit a x
  | withdraw a _ _ ia account => exact hl.debit _ (hl a ia account)
  | reserve row _ _ n res => exact hl.freeze res.account row.taskId n
  | path _ path => exact path.denominated hl
  | refund _ money => exact hl.congr (accounts_of_money money)
  | fund _ step =>
    cases step with
    | idle | paid => exact hl

/-- No step writes to the expiry index. -/
theorem LedgerStep.frozenTaskIndex : l'.frozenTaskIndex = l.frozenTaskIndex := by
  cases h.account_trivial with
  | deposit => exact Ledger.frozenTaskIndex_credit ..
  | withdraw | reserve => rfl
  | path _ path => exact path.frozenTaskIndex
  | refund _ money => exact congrArg MoneyView.frozenTaskIndex money
  | fund _ step =>
    cases step with
    | idle | paid => rfl

end Frame

/-! ## executing a script -/

/-- The settlement account deposits nothing: no message arrives in its name, or
none of these deposits is its own. -/
def Foreign (env : Env) (labs : List Label) : Prop :=
  env.signs env.settlementAccount = true → ∀ x, Label.deposit env.settlementAccount x ∉ labs

theorem Foreign.of_keyless (hkeyless : env.signs env.settlementAccount = false) :
    Foreign env labs := fun hsigns => by
  rw [hkeyless] at hsigns
  contradiction

/-- The state `s'` is reached from `s` by executing labels in a block.  The bank
follows the labels unless the settlement account acts as a user or a worker. -/
structure Performs (env : Env) (ctx : Ctx) (labs : List Label) (s s' : State)
    (out counted : Int) : Prop where
  steps : Steps env ctx.height s.params s.book.fees labs s.ledger s'.ledger out counted
  params : s'.params = s.params
  fees : ∀ epoch, s'.book.fees epoch = s.book.fees epoch + if epoch = ctx.epoch then counted else 0
  balance : Foreign env labs → s.Apart env → s'.moduleBalance env = s.moduleBalance env - out
  registered : ∀ a, (s'.world.workers.get a).isSome = (s.world.workers.get a).isSome

namespace Performs

variable {ctx : Ctx} {labs' : List Label} {s s' s'' : State} {y : Int}

/-- Steps of the ledger that go with a move of the state. -/
theorem of_moves {l' : Ledger}
    (steps : Steps env ctx.height s.params s.book.fees labs s.ledger l' x 0)
    (hmove : State.Moves env s s' l' x) : Performs env ctx labs s s' x 0 where
  steps := hmove.ledger ▸ steps
  params := hmove.params
  fees := fun epoch => by rw [hmove.fees, ite_self, Int.add_zero]
  balance := fun _ => hmove.balance
  registered := hmove.registered

theorem refl (s : State) : Performs env ctx labs s s 0 0 :=
  .of_moves (.idle labs s.ledger) (.refl s)

theorem trans (h : Performs env ctx labs s s' x 0) (h' : Performs env ctx labs' s' s'' y 0) :
    Performs env ctx (labs ++ labs') s s'' (x + y) 0 := by
  have hfees : s'.book.fees = s.book.fees := funext fun epoch => by
    rw [h.fees, ite_self, Int.add_zero]
  have hsteps := h'.steps
  rw [h.params, hfees] at hsteps
  refine ⟨h.steps.append hsteps, h'.params.trans h.params, fun epoch => ?_,
    fun hforeign hs => ?_, fun a => ?_⟩
  · rw [h'.fees, hfees]
  · have hlabs : Foreign env labs ∧ Foreign env labs' := by
      unfold Foreign at *
      simp_all
    rw [h'.balance hlabs.2 ((h.registered _).trans hs), h.balance hlabs.1 hs]
    omega
  · rw [h'.registered, h.registered]

end Performs

/-- A loop whose every turn is a labelled step executes the labels of its list.
`state` and `total` read the state and the counted fees off the loop's
accumulator. -/
theorem steps_of_foldlM {σ α : Type} {f : σ → α → Exec σ} {state : σ → State} {total : σ → Int}
    {label : α → Label} {height : Int}
    (hturn : ∀ a x, (state a).ledger.Denominated → OnValue (fun a' => ∃ l' out c,
    LedgerStep env height (state a).params (state a).book.fees (state a).ledger (label x)
    l' out c ∧ State.Moves env (state a) (state a') l' out ∧ total a' = total a + c) (f a x))
    {xs : List α} {a : σ} (hdenom : (state a).ledger.Denominated) :
    OnValue (fun a' => ∃ l' out c, Steps env height (state a).params (state a).book.fees
    (xs.map label) (state a).ledger l' out c ∧
    State.Moves env (state a) (state a') l' out ∧ total a' = total a + c) (xs.foldlM f a) := by
  induction xs generalizing a with
  | nil => exact .ok ⟨_, _, _, .nil _, .refl _, by omega⟩
  | cons x _ ih =>
    refine (hturn a x hdenom).bind ?_
    rintro a₁ ⟨l₁, out, c, hstep, hmove, htotal⟩
    have hdenom₁ : (state a₁).ledger.Denominated := hmove.ledger ▸ hstep.denominated hdenom
    refine (ih hdenom₁).mono ?_
    rintro a₂ ⟨l₂, out', c', hsteps, hmove', htotal'⟩
    have hfees : (state a₁).book.fees = (state a).book.fees := funext hmove.fees
    rw [hmove.params, hfees, hmove.ledger] at hsteps
    exact ⟨l₂, out + out', c + c', .cons hstep hsteps, hmove.trans hmove', by omega⟩

/-! ## messages -/

section Messages
variable {ctx : Ctx} {s s' : State}

theorem admitted_ok {msg : Msg} (h : admitted env msg = true) :
    msg.validateBasic env.toHost = .ok () ∧
    ∃ a, env.accAddressFromBech32 msg.signer = some a ∧ env.signs a = true := by
  simp only [admitted, Bool.and_eq_true] at h
  obtain ⟨hvalid, hsigner⟩ := h
  refine ⟨?_, by simpa [Option.any_eq_true] using hsigner⟩
  cases hv : msg.validateBasic env.toHost with
  | error => simp [hv, Except.isOk, Except.toBool] at hvalid
  | ok => rfl

theorem deposit_performs {msg : MsgDeposit} (hvalid : msg.validateBasic env.toHost = .ok ())
    (hsigner : env.accAddressFromBech32 msg.creator = some a) (hsigns : env.signs a = true)
    (h : handle env ctx s (.deposit msg) = .ok (s', .ok ())) :
    ∃ x, Performs env ctx ((Msg.deposit msg).script env) s s' x 0 := by
  obtain ⟨hpos, -⟩ := checkAmount_ok hvalid
  simp only [handle, withCreator, hsigner] at h
  obtain ⟨-, x, hx, hmove⟩ := processDeposit_moves.get h _ rfl
  refine ⟨-msg.amount.amount, ?_⟩
  rw [Msg.script, hsigner]
  refine ⟨hmove.ledger ▸ .single (.deposit a _ hpos), hmove.params, fun epoch => ?_,
    fun hforeign hs => ?_, hmove.registered⟩
  · rw [hmove.fees, ite_self, Int.add_zero]
  · have hne : a ≠ env.settlementAccount := by
      rintro rfl
      exact hforeign hsigns _ (.head _)
    rw [hmove.balance hs, hx hne]

theorem withdraw_performs {msg : MsgWithdraw} (hvalid : msg.validateBasic env.toHost = .ok ())
    (hsigner : env.accAddressFromBech32 msg.creator = some a)
    (h : handle env ctx s (.withdraw msg) = .ok (s', .ok ())) :
    ∃ x, Performs env ctx ((Msg.withdraw msg).script env) s s' x 0 := by
  obtain ⟨hpos, -⟩ := checkAmount_ok hvalid
  simp only [handle, withCreator, hsigner] at h
  obtain ⟨ia, hia, hcover, hmove⟩ := (processWithdraw_moves hpos).get h _ rfl
  refine ⟨msg.amount.amount, ?_⟩
  rw [Msg.script, hsigner]
  exact .of_moves (.single (.withdraw a _ hpos ia hia hcover)) hmove

/-- The accumulator of a reserve batch as a state. -/
def ReserveAcc.state (s : State) (acc : ReserveAcc) : State := { s with ledger := acc.ledger }

theorem reserveStep_cases {acc : ReserveAcc} {row : ReserveEntry} :
    OnValue (fun acc' => ∃ l' out c, LedgerStep env ctx.height (acc.state s).params
    (acc.state s).book.fees (acc.state s).ledger (.reserve row) l' out c ∧
    State.Moves env (acc.state s) (acc'.state s) l' out ∧ (0 : Int) = 0 + c)
    (reserveStep env ctx.height acc row) := by
  refine reserveRow_eq.bind_option (.ok ⟨_, _, _, .idle _, .refl _, rfl⟩) ?_
  rintro l' ⟨u, ia, n, res, rfl⟩
  exact .ok ⟨_, _, _, .reserve row u ia n res, (State.Moves.refl (acc.state s)).map fun _ => _, rfl⟩

theorem reserve_performs {msg : MsgBatchReserve} (hdenom : s.ledger.Denominated) :
    OnValue (fun r => ∀ u, r.2 = .ok u →
    ∃ x, Performs env ctx ((Msg.batchReserve msg).script env) s r.1 x 0)
    (processBatchReserve env ctx s msg) := by
  unfold processBatchReserve
  split
  · exact .ok nofun
  refine .either (.after fun _ _ => .ok nofun) <| .either (.after fun _ _ => .ok nofun) ?_
  have hstart : ((⟨s.ledger, 0, 0⟩ : ReserveAcc).state s).ledger.Denominated := hdenom
  refine (steps_of_foldlM (fun _ _ _ => reserveStep_cases) hstart).bind ?_
  rintro acc ⟨l', out, c, hsteps, hmove, hc⟩
  obtain rfl : c = 0 := by omega
  exact .ok fun _ _ => ⟨out, .of_moves hsteps hmove⟩

/-- An accepted batch is its entries, one after the other, and the record. -/
theorem processBatchSettlement_eq_ok : OnValue (fun r => ∀ batchId, r.2 = .ok batchId → ∃ acc,
    msg.entries.foldlM (settleEntry env ctx) ⟨s, 0, 0, 0⟩ = .ok acc ∧
    closeBatch ctx acc msg = .ok (r.1, batchId)) (processBatchSettlement env ctx s msg) := by
  refine .either (.after fun _ _ => .ok nofun) ?_
  split
  · exact .ok nofun
  refine .either (.after fun _ _ => .ok nofun) <| .after fun acc hloop =>
    .after fun r hclose => .ok fun batchId hid => ⟨acc, hloop, ?_⟩
  rw [hclose, ← Except.ok.inj hid]

theorem batch_performs {r : UInt64} (hdenom : s.ledger.Denominated)
    (h : processBatchSettlement env ctx s msg = .ok (s', .ok r)) :
    ∃ x c, Performs env ctx ((Msg.batchSettlement msg).script env) s s' x c := by
  obtain ⟨acc, hloop, hclose⟩ := processBatchSettlement_eq_ok.get h _ rfl
  have hturn : ∀ (a : BatchAcc) e, a.state.ledger.Denominated → OnValue (fun a' =>
      ∃ l' out c, LedgerStep env ctx.height a.state.params a.state.book.fees a.state.ledger
          (.entry e) l' out c ∧
        State.Moves env a.state a'.state l' out ∧ a'.totalFees = a.totalFees + c)
      (settleEntry env ctx a e) := by
    intro a e _
    refine settleEntry_cases.mono ?_
    rintro a' ⟨l', out, c, hstep, hmove, htotal⟩
    exact ⟨l', out, c, .entry hstep, hmove, htotal⟩
  obtain ⟨l', out, c, hsteps, hmove, htotal⟩ := (steps_of_foldlM hturn hdenom).get hloop
  obtain ⟨hledger, hparams, hworld, hfees⟩ := closeBatch_spec.get hclose
  rw [← hmove.ledger, ← hledger] at hsteps
  refine ⟨out, c, hsteps, hparams.trans hmove.params, fun epoch => ?_, ?_, fun a => ?_⟩
  · rw [hfees, hmove.fees, htotal, Int.zero_add]
  · rw [State.moduleBalance, hworld]
    exact fun _ => hmove.balance
  · rw [hworld]
    exact hmove.registered a

theorem vote_performs {msg : MsgSecondVerificationResult} (hdenom : s.ledger.Denominated) :
    OnValue (fun r => ∃ x, Performs env ctx [.vote msg] s r.1 x 0)
    (processSecondVerificationResult env ctx s msg) := by
  refine (processSecondVerificationResult_cases hdenom).mono ?_
  rintro r ⟨l', out, hstep, hmove⟩
  exact ⟨out, .of_moves (.single (.vote hstep)) hmove⟩

/-- An entry of a batch of votes is refused or is its vote. -/
theorem resultStep_rule {Q : State → Prop} (hsame : Q acc.state)
    (hvote : batchEntrySigned env acc.state e = true → OnValue (fun r => Q r.1)
    (processSecondVerificationResult env ctx acc.state e.single)) :
    OnValue (fun acc' => Q acc'.state) (resultStep env ctx acc e) := by
  refine OnValue.bind (Q := fun r => Q r.1) (.ite (fun hsigned => ?_) fun _ => .ok hsame) ?_
  · refine (hvote hsigned).bind fun r hr => ?_
    split <;> exact .ok hr
  · rintro ⟨s, accepted⟩ hs
    cases accepted <;> exact .ok hs

theorem resultStep_cases (hdenom : acc.state.ledger.Denominated) :
    OnValue (fun acc' => ∃ l' out c, LedgerStep env ctx.height acc.state.params acc.state.book.fees
    acc.state.ledger (.vote e.single) l' out c ∧
    State.Moves env acc.state acc'.state l' out ∧ (0 : Int) = 0 + c)
    (resultStep env ctx acc e) := by
  refine resultStep_rule (Q := fun s' => ∃ l' out c, LedgerStep env ctx.height acc.state.params
      acc.state.book.fees acc.state.ledger (.vote e.single) l' out c ∧
      State.Moves env acc.state s' l' out ∧ (0 : Int) = 0 + c)
    ⟨_, _, _, .idle _, .refl _, rfl⟩ fun _ => ?_
  refine (processSecondVerificationResult_cases hdenom).mono ?_
  rintro r ⟨l', out, hstep, hmove⟩
  exact ⟨l', out, 0, .vote hstep, hmove, rfl⟩

theorem votes_performs {msg : MsgSecondVerificationResultBatch} (hdenom : s.ledger.Denominated) :
    OnValue (fun r => ∃ x,
    Performs env ctx ((Msg.secondVerificationResultBatch msg).script env) s r.1 x 0)
    (processSecondVerificationResultBatch env ctx s msg) := by
  have hstart : (⟨s, 0, 0⟩ : ResultAcc).state.ledger.Denominated := hdenom
  refine (steps_of_foldlM (fun _ _ => resultStep_cases) hstart).bind ?_
  rintro acc ⟨l', out, c, hsteps, hmove, hc⟩
  obtain rfl : c = 0 := by omega
  exact .ok ⟨out, .of_moves hsteps hmove⟩

theorem fraud_performs {msg : MsgFraudProof}
    (h : processFraudProof env ctx s msg = .ok (s', .ok ())) :
    ∃ x, Performs env ctx ((Msg.fraudProof msg).script env) s s' x 0 := by
  obtain ⟨l', out, hstep, hmove⟩ := processFraudProof_cases.get h _ rfl
  exact ⟨out, .of_moves (.single (.fraud hstep)) hmove⟩

/-- A delivered message is the identity or a handler that succeeded, with a
signer in whose name messages arrive. -/
theorem deliver_cases (env : Env) (ctx : Ctx) (s : State) (msg : Msg) : deliver env ctx s msg = s ∨
    (msg.validateBasic env.toHost = .ok () ∧
    ∃ a, env.accAddressFromBech32 msg.signer = some a ∧ env.signs a = true) ∧
    handle env ctx s msg = .ok (deliver env ctx s msg, .ok ()) := by
  unfold deliver
  split
  · next hadmitted =>
    split
    · next s₁ h => exact .inr ⟨admitted_ok hadmitted, h⟩
    · exact .inl rfl
  · exact .inl rfl

/-- **A delivered message executes its script.** -/
theorem deliver_performs (horderly : Orderly env s) (msg : Msg) :
    ∃ x c, Performs env ctx (msg.script env) s (deliver env ctx s msg) x c := by
  obtain hsame | ⟨⟨hvalid, a, hsigner, hsigns⟩, h⟩ := deliver_cases env ctx s msg
  · exact ⟨0, 0, hsame.symm ▸ .refl s⟩
  generalize deliver env ctx s msg = s' at h
  cases msg with
  | deposit =>
    obtain ⟨x, hx⟩ := deposit_performs hvalid hsigner hsigns h
    exact ⟨x, 0, hx⟩
  | withdraw =>
    obtain ⟨x, hx⟩ := withdraw_performs hvalid hsigner h
    exact ⟨x, 0, hx⟩
  | batchSettlement =>
    obtain ⟨⟨s₁, r⟩, hbatch, h⟩ := bind_eq_ok.mp h
    obtain ⟨rfl, hr⟩ := Prod.mk.inj (Except.ok.inj h)
    cases r with
    | error => simp [Except.map] at hr
    | ok => exact batch_performs horderly.denominated hbatch
  | batchReserve =>
    obtain ⟨⟨s₁, r⟩, hbatch, h⟩ := bind_eq_ok.mp h
    obtain ⟨rfl, hr⟩ := Prod.mk.inj (Except.ok.inj h)
    cases r with
    | error => simp [Except.map] at hr
    | ok =>
      obtain ⟨x, hx⟩ := (reserve_performs horderly.denominated).get hbatch _ rfl
      exact ⟨x, 0, hx⟩
  | fraudProof =>
    obtain ⟨x, hx⟩ := fraud_performs h
    exact ⟨x, 0, hx⟩
  | secondVerificationResult =>
    obtain ⟨x, hx⟩ := (vote_performs horderly.denominated).get h
    exact ⟨x, 0, hx⟩
  | secondVerificationResultBatch =>
    obtain ⟨⟨s₁, r⟩, hbatch, h⟩ := bind_eq_ok.mp h
    cases h
    obtain ⟨x, hx⟩ := (votes_performs horderly.denominated).get hbatch
    exact ⟨x, 0, hx⟩

end Messages

/-! ## the end of a block -/

section EndBlock
variable {ctx : Ctx} {s s' : State}

theorem Performs.orderly {c : Int} (h : Performs env ctx labs s s' x c) (horderly : Orderly env s) :
    Orderly env s' where
  denominated := h.steps.invariant horderly.denominated
    fun _ _ _ _ _ _ hl hstep => hstep.denominated hl
  signed := fun a ha => horderly.signed a (h.registered a ▸ ha)

theorem Performs.unindexed {c : Int} (h : Performs env ctx labs s s' x c)
    (hindex : s.ledger.frozenTaskIndex = ∅) : s'.ledger.frozenTaskIndex = ∅ :=
  h.steps.invariant (I := fun l => l.frozenTaskIndex = ∅) hindex
    fun _ _ _ _ _ _ hl hstep => hstep.frozenTaskIndex.trans hl

theorem sweepQueue_performs (third : Bool) (horderly : Orderly env s) :
    OnValue (fun s' => ∃ x, Performs env ctx [.sweep third] s s' x 0)
    (sweepQueue env ctx third (s.params.timeoutOf third) s) := by
  refine (sweepQueue_cases horderly.denominated).mono ?_
  rintro s' ⟨l', out, hstep, hmove⟩
  exact ⟨out, .of_moves (.single (.sweep hstep)) hmove⟩

theorem closeEpoch_performs :
    OnValue (fun s' => ∃ x, Performs env ctx ctx.closing s s' x 0) (closeEpoch env ctx s) := by
  unfold Ctx.closing
  refine .ite (fun hboundary => ?_) fun _ => .ok ⟨0, .refl s⟩
  have hquiet : State.Quiet env s (updateRates env s ctx.closingEpoch) := State.Quiet.ofBook rfl
  rw [if_pos (by exact hboundary)]
  refine OnValue.mono (x := distributeMultiVerificationFund env ctx
    (updateRates env s ctx.closingEpoch) ctx.closingEpoch) distributeMultiVerificationFund_cases ?_
  rintro s' ⟨l', out, hstep, hmove⟩
  exact ⟨out, .of_moves (.single (.fund hstep)) (hmove.after hquiet.moves)⟩

/-- **EndBlock executes its script.** -/
theorem endBlock_performs (horderly : Orderly env s) (hindex : s.ledger.frozenTaskIndex = ∅) :
    OnValue (fun s' => ∃ x, Performs env ctx
    ([.cleanup, .sweep false, .sweep true] ++ ctx.closing) s s' x 0) (endBlock env ctx s) := by
  have hcleanup : Performs env ctx [.cleanup] s (cleanupExpiredTasks ctx s) 0 0 :=
    .of_moves (.single .cleanup) ((State.Moves.refl s).map _)
  refine OnValue.bind (Q := fun s₂ => ∃ x,
    Performs env ctx [.cleanup, .sweep false, .sweep true] s s₂ x 0) ?_ ?_
  · refine (sweepQueue_performs false (hcleanup.orderly horderly)).bind ?_
    rintro s₁ ⟨x₁, hsecond⟩
    have h₁ := hcleanup.trans hsecond
    refine (sweepQueue_performs true (h₁.orderly horderly)).mono ?_
    rintro s₂ ⟨x₂, hthird⟩
    exact ⟨_, h₁.trans hthird⟩
  · rintro s₂ ⟨x, h₂⟩
    refine (handleFrozenBalanceTimeouts_of_empty (h₂.unindexed hindex)).bind ?_
    rintro s₃ rfl
    refine closeEpoch_performs.mono ?_
    rintro s₄ ⟨y, hclose⟩
    exact ⟨_, h₂.trans hclose⟩

end EndBlock

/-! ## events and runs -/

/-- An event executed its script.  Only other modules can give the settlement
account more than the script says, and it gets less only when it acts as a
user or a worker itself. -/
structure Performed (env : Env) (ev : Event) (c c' : Chain) (out counted : Int) : Prop where
  steps : Steps env c.ctx.height c.state.params c.state.book.fees (ev.script env c.ctx)
    c.state.ledger c'.state.ledger out counted
  params : c'.state.params = c.state.params
  fees : ∀ epoch, c'.state.book.fees epoch =
    c.state.book.fees epoch + if epoch = c.ctx.epoch then counted else 0
  balance : Foreign env (ev.script env c.ctx) → c.state.Apart env →
    c.state.moduleBalance env - out ≤ c'.state.moduleBalance env
  exactly : (∀ o, ev ≠ .outside o) → Foreign env (ev.script env c.ctx) → c.state.Apart env →
    c'.state.moduleBalance env = c.state.moduleBalance env - out
  registered : ∀ a, (c'.state.world.workers.get a).isSome →
    (c.state.world.workers.get a).isSome ∨ env.signs a = true
  stays : (∀ next, ev ≠ .endBlock next) → c'.ctx = c.ctx
  advances : ∀ next, ev = .endBlock next → c.ctx.height < next.height ∧ c'.ctx = next

theorem Performed.height_le {c : Chain} {y : Int} (h : Performed env ev c c' x y) :
    c.ctx.height ≤ c'.ctx.height := by
  cases ev with
  | endBlock next =>
    obtain ⟨hlt, hctx⟩ := h.advances next rfl
    exact hctx ▸ hlt.le
  | tx | outside => rw [h.stays (by simp)]

theorem Performed.wellFormed {c : Chain} {y : Int} (h : Performed env ev c c' x y)
    (hwf : WellFormed env c.state) : WellFormed env c'.state where
  denominated := h.steps.invariant hwf.denominated fun _ _ _ _ _ _ hl hstep => hstep.denominated hl
  signed := fun a ha => by
    obtain ha | ha := h.registered a ha
    · exact hwf.signed a ha
    · exact ha
  unindexed := h.steps.invariant (I := fun l => l.frozenTaskIndex = ∅) hwf.unindexed
    fun _ _ _ _ _ _ hl hstep => hstep.frozenTaskIndex.trans hl
  params := h.params ▸ hwf.params

/-- **The chain refines the machine**: every event executes its script. -/
theorem Chain.step_performed {c : Chain} (hwf : WellFormed env c.state)
    (h : c.step env ev = some c') : ∃ x y, Performed env ev c c' x y := by
  cases ev with
  | tx msg =>
    cases h
    obtain ⟨x, y, hp⟩ := deliver_performs hwf.toOrderly msg
    exact ⟨x, y, hp.steps, hp.params, hp.fees,
      fun hforeign hs => Int.le_of_eq (hp.balance hforeign hs).symm, fun _ => hp.balance,
      fun a ha => .inl (hp.registered a ▸ ha), fun _ => rfl, by simp⟩
  | endBlock next =>
    simp only [Chain.step] at h
    split at h
    · next hlt =>
      split at h
      · next s hend =>
        cases h
        obtain ⟨x, hp⟩ := (endBlock_performs hwf.toOrderly hwf.unindexed).get hend
        refine ⟨x, 0, hp.steps, hp.params, hp.fees,
          fun hforeign hs => Int.le_of_eq (hp.balance hforeign hs).symm, fun _ => hp.balance,
          fun a ha => .inl (hp.registered a ▸ ha), fun hne => absurd rfl (hne next), fun next' he => ?_⟩
        obtain rfl := Event.endBlock.inj he
        exact ⟨hlt, rfl⟩
      · simp at h
    · simp at h
  | outside o =>
    cases h
    refine ⟨0, 0, .nil _, rfl, fun _ => ?_, ?_, fun hne => absurd rfl (hne o),
      fun a ha => .inr (signs_applyOutside ha), fun _ => rfl, by simp⟩
    · rw [ite_self, Int.add_zero]
      rfl
    · intro _ _
      simp only [State.moduleBalance, applyOutside, if_true]
      omega

/-! ## genesis -/

namespace Ledger

/-- The ledger of a genesis: accounts only, with nothing frozen. -/
structure Initial (l : Ledger) : Prop where
  only : l = { Ledger.empty with inferenceAccounts := l.inferenceAccounts }
  account : ∀ a ia, l.getInferenceAccount a = some ia →
    ia.balance.denom = defaultDenom ∧ 0 ≤ ia.balance.amount ∧ ia.frozenBalance = Coin.zero

theorem Initial.empty : Ledger.empty.Initial where
  only := rfl
  account := fun a ia h => by simp [getInferenceAccount, Ledger.empty] at h

theorem Initial.set (h : l.Initial)
    (hia : ia.balance.denom = defaultDenom ∧ 0 ≤ ia.balance.amount ∧ ia.frozenBalance = Coin.zero) :
    (l.setInferenceAccount ia).Initial where
  only := by
    have honly := h.only
    rw [setInferenceAccount, honly]
  account := by
    intro a ia' hia'
    rw [getInferenceAccount_set] at hia'
    split at hia'
    · grind
    · exact h.account a ia' hia'

theorem Initial.foldl (h : l.Initial) {accounts : List InferenceAccount}
    (haccounts : ∀ ia ∈ accounts, ia.balance.denom = defaultDenom ∧ 0 ≤ ia.balance.amount ∧
    ia.frozenBalance = Coin.zero) : (accounts.foldl setInferenceAccount l).Initial := by
  induction accounts generalizing l with
  | nil => exact h
  | cons ia _ ih =>
    exact ih (h.set (haccounts ia (.head _))) fun ia' hia' => haccounts ia' (.tail _ hia')

/-- At genesis nothing is known of any task. -/
theorem Initial.view (h : l.Initial) (t : TaskId) :
    l.view t = ⟨none, false, none, none, none, none, []⟩ := by
  rw [h.only]
  rfl

theorem Initial.allPending (h : l.Initial) (Q : SecondVerificationPendingTask → Prop) :
    l.AllPending Q := by
  intro third t apt hapt
  rw [← Ledger.pending_view, h.view] at hapt
  cases third <;> simp [TaskView.pending] at hapt

end Ledger

namespace AtGenesis

variable {c : Chain}

theorem initial (h : AtGenesis env c) : c.state.ledger.Initial := by
  obtain ⟨gs, hvalid, haccounts, hstate⟩ := h.genesis
  rw [hstate]
  refine Ledger.Initial.empty.foldl fun ia hia => ?_
  simp only [GenesisState.validate, Bool.and_eq_true, List.all_eq_true] at hvalid
  have hcoin := hvalid.2 ia hia
  simp only [Coin.isValid, Bool.and_eq_true, decide_eq_true_eq] at hcoin
  exact ⟨(haccounts ia hia).1, hcoin.2, (haccounts ia hia).2⟩

theorem wellFormed (h : AtGenesis env c) : WellFormed env c.state := by
  refine ⟨⟨fun a ia hia => (h.initial.account a ia hia).1, h.signed⟩, ?_, ?_⟩
  · rw [h.initial.only]
    rfl
  obtain ⟨gs, hvalid, -, hstate⟩ := h.genesis
  rw [hstate]
  simp only [GenesisState.validate, Bool.and_eq_true] at hvalid
  exact Option.isNone_iff_eq_none.mp hvalid.1.1

/-- At genesis no fees are counted. -/
theorem fees (h : AtGenesis env c) (epoch : Int) : c.state.book.fees epoch = 0 := by
  obtain ⟨gs, -, -, hstate⟩ := h.genesis
  rw [hstate]
  have hstats : ∀ (brs : List BatchRecord) (b : Book), b.epochStats = ∅ →
      (brs.foldl (fun b br => { b with
        batchRecords := b.batchRecords.set br.batchId br rfl
        batchCounter := if 0 < br.batchId then some br.batchId else b.batchCounter })
        b).epochStats = ∅ := by
    intro brs
    induction brs with
    | nil => exact fun b hb => hb
    | cons _ _ ih => exact fun b hb => ih _ hb
  have hempty := hstats gs.batchRecords Book.empty rfl
  simp only [Book.fees, Book.getEpochStats, initGenesis, hempty]
  rfl

end AtGenesis

/-- The rule for runs from a well-formed state. -/
theorem Run.preserves_from {c : Chain} (hwf : WellFormed env c₀.state) (run : Run env P c₀ c)
    (hstart : I c₀) (hstep : ∀ c ev c' x y, WellFormed env c.state → I c → P c ev →
    Performed env ev c c' x y → I c') : I c := by
  have hboth : WellFormed env c.state ∧ I c := by
    refine run.invariant (I := fun c => WellFormed env c.state ∧ I c) ⟨hwf, hstart⟩ ?_
    intro c ev c' hI hP hnext
    obtain ⟨x, y, hp⟩ := Chain.step_performed hI.1 hnext
    exact ⟨hp.wellFormed hI.1, hstep c ev c' x y hI.1 hI.2 hP hp⟩
  exact hboth.2

/-- **The rule for runs from genesis.**  An invariant of the genesis that the
script of every conditioned event keeps holds in every state reached. -/
theorem Run.preserves {c : Chain} (hgenesis : AtGenesis env c₀) (run : Run env P c₀ c)
    (hstart : I c₀) (hstep : ∀ c ev c' x y, WellFormed env c.state → I c → P c ev →
    Performed env ev c c' x y → I c') : I c :=
  run.preserves_from hgenesis.wellFormed hstart hstep

theorem Run.wellFormed {c : Chain} (hgenesis : AtGenesis env c₀) (run : Run env P c₀ c) :
    WellFormed env c.state :=
  run.preserves hgenesis hgenesis.wellFormed fun _ _ _ _ _ hwf _ _ hp => hp.wellFormed hwf

end FunaiChain.Settlement
