import FunaiChain.Settlement.Jailing
import FunaiChain.Settlement.Direct
import FunaiChain.Settlement.Voters

/-!
# FunaiChain.Settlement.Counters

The four stores that the reward module reads: how often and for how much an
account verified, as an original and as a second verifier.

The counts of original verifiers are raised in one place, where an entry is
settled without audit (`countVerifiers`), and for every row of the entry.
Every other function leaves them (`KeepsCounts`), and whoever it adds to the
other stores was just paid or has just voted.
-/

namespace FunaiChain.Settlement

variable {env : Env} {ctx : Ctx} {P : Addr → Prop} {s s' s'' : State}
variable {a u w : Addr} {baseFee c fee : Coin} {ia : InferenceAccount} {address : String}
  {entry : SettlementEntry} {vs : List VerifierResult} {b : Book} {r : Except Err Unit}
  {amount d total : Int} {split : Split} {alreadyPaidFail auditPass settled third : Bool}
  {stats : EpochStats} {msg : MsgBatchSettlement} {batchId : UInt64} {m : FrozenTaskMeta}
  {acc acc' : BatchAcc} {apt : SecondVerificationPendingTask} {ar : SecondVerificationRecord}

/-! ## the stores -/

/-- A property of every account in one of the four stores. -/
structure Counted (P : Addr → Prop) (b : Book) : Prop where
  verifierCount : ∀ a n, b.verifierEpochCount.get a = some n → P a
  secondVerifierCount : ∀ a n, b.secondVerifierEpochCount.get a = some n → P a
  verifierFee : ∀ a x, b.verifierEpochFee.get a = some x → P a
  secondVerifierFee : ∀ a x, b.secondVerifierEpochFee.get a = some x → P a

/-- The counts of original verifiers stay, and every account that is new in one
of the stores has the property. -/
structure KeepsCounts (P : Addr → Prop) (s s' : State) : Prop where
  verifications : s'.book.verifierEpochCount = s.book.verifierEpochCount
  counted : Counted P s.book → Counted P s'.book

namespace KeepsCounts

theorem refl (s : State) : KeepsCounts P s s := ⟨rfl, id⟩

theorem trans (h : KeepsCounts P s s') (h' : KeepsCounts P s' s'') : KeepsCounts P s s'' :=
  ⟨h'.verifications.trans h.verifications, fun hs => h'.counted (h.counted hs)⟩

/-- Nothing is written to the four stores. -/
theorem of_same (hverifier : s'.book.verifierEpochCount = s.book.verifierEpochCount)
    (hsecond : s'.book.secondVerifierEpochCount = s.book.secondVerifierEpochCount)
    (hfee : s'.book.verifierEpochFee = s.book.verifierEpochFee)
    (hsecondFee : s'.book.secondVerifierEpochFee = s.book.secondVerifierEpochFee) :
    KeepsCounts P s s' :=
  ⟨hverifier, fun h => ⟨hverifier ▸ h.verifierCount, hsecond ▸ h.secondVerifierCount,
    hfee ▸ h.verifierFee, hsecondFee ▸ h.secondVerifierFee⟩⟩

theorem of_book (h : s'.book = s.book) : KeepsCounts P s s' :=
  .of_same (by rw [h]) (by rw [h]) (by rw [h]) (by rw [h])

/-- Only the books matter. -/
theorem books {t t' : State} (h : KeepsCounts P s s') (ht : t.book = s.book)
    (ht' : t'.book = s'.book) : KeepsCounts P t t' :=
  ((of_book ht.symm).trans h).trans (of_book ht')

end KeepsCounts

/-- Nobody is counted when the stores are empty. -/
theorem Counted.of_empty (hverifier : b.verifierEpochCount = ∅)
    (hsecond : b.secondVerifierEpochCount = ∅) (hfee : b.verifierEpochFee = ∅)
    (hsecondFee : b.secondVerifierEpochFee = ∅) : Counted P b :=
  ⟨by simp [hverifier], by simp [hsecond], by simp [hfee], by simp [hsecondFee]⟩

/-- A genesis counts nobody. -/
theorem counters_initGenesis (gs : GenesisState) (w : World) :
    (initGenesis gs w).book.verifierEpochCount = ∅ ∧
    (initGenesis gs w).book.secondVerifierEpochCount = ∅ ∧
    (initGenesis gs w).book.verifierEpochFee = ∅ ∧
    (initGenesis gs w).book.secondVerifierEpochFee = ∅ := by
  refine List.foldlRecOn (motive := fun b : Book => b.verifierEpochCount = ∅ ∧
    b.secondVerifierEpochCount = ∅ ∧ b.verifierEpochFee = ∅ ∧ b.secondVerifierEpochFee = ∅)
    _ _ ⟨rfl, rfl, rfl, rfl⟩ ?_
  exact fun b hb br _ => hb

/-- What holds of the old keys and of the new one holds of all. -/
theorem property_of_put {V : Type} {store : Store Addr V} {b : Addr} {v w : V}
    (hstore : ∀ a v, store.get a = some v → P a) (ha : P a) (h : (store.put a v).get b = some w) :
    P b := by
  rw [Table.get_put] at h
  split at h
  · next hab => exact hab ▸ ha
  · exact hstore b w h

theorem counted_incrementVerifierEpochCount (h : Counted P b)
    (haddress : ∀ a, env.accAddressFromBech32 address = some a → P a) :
    Counted P (incrementVerifierEpochCount env b address) := by
  unfold incrementVerifierEpochCount
  split
  · exact h
  · next a ha =>
    exact ⟨fun b n hb => property_of_put h.verifierCount (haddress a ha) hb,
      h.secondVerifierCount, h.verifierFee, h.secondVerifierFee⟩

section
variable (haddress : ∀ a, env.accAddressFromBech32 address = some a → P a)
include haddress

theorem keeps_incrementSecondVerifierEpochCount :
    KeepsCounts P s { s with book := incrementSecondVerifierEpochCount env s.book address } := by
  unfold incrementSecondVerifierEpochCount
  split
  · exact .refl s
  · next a ha =>
    exact ⟨rfl, fun h => ⟨h.verifierCount,
      fun b n hb => property_of_put h.secondVerifierCount (haddress a ha) hb,
      h.verifierFee, h.secondVerifierFee⟩⟩

theorem keeps_incrementVerifierEpochFee : OnValue (fun b => KeepsCounts P s { s with book := b })
      (incrementVerifierEpochFee env s.book address amount) := by
  refine .either (.ok (.refl s)) ?_
  split
  · exact .ok (.refl s)
  next a ha =>
  refine .after fun fees hfees => .ok ⟨rfl, fun h => { h with verifierFee := ?_ }⟩
  obtain ⟨total, -, hput⟩ := bind_eq_ok.mp hfees
  cases hput
  exact fun b x hb => property_of_put h.verifierFee (haddress a ha) hb

theorem keeps_incrementSecondVerifierEpochFee :
    OnValue (fun b => KeepsCounts P s { s with book := b })
      (incrementSecondVerifierEpochFee env s.book address amount) := by
  refine .either (.ok (.refl s)) ?_
  split
  · exact .ok (.refl s)
  next a ha =>
  refine .after fun fees hfees => .ok ⟨rfl, fun h => { h with secondVerifierFee := ?_ }⟩
  obtain ⟨total, -, hput⟩ := bind_eq_ok.mp hfees
  cases hput
  exact fun b x hb => property_of_put h.secondVerifierFee (haddress a ha) hb

end

/-! ## penalties and bookkeeping -/

theorem book_jailWorker : OnValue (fun s' => s'.book = s.book) (s.jailWorker env ctx a) :=
  .after fun _ _ => .ok rfl

theorem book_jailAll {L : List Addr} : OnValue (fun s' => s'.book = s.book) (s.jailAll env ctx L) :=
  .after fun _ _ => .ok rfl

theorem book_jailWorkerAt :
    OnValue (fun s' => s'.book = s.book) (s.jailWorkerAt env ctx address) := by
  rw [State.jailWorkerAt_eq]
  exact book_jailAll

theorem book_jailFailSecondVerifiers :
    OnValue (fun s' => s'.book = s.book) (jailFailSecondVerifiers env ctx s ar) := by
  refine .foldlM _ (fun s₁ p hs₁ => ?_) rfl
  dsimp only
  split
  · exact .error
  · exact .ok hs₁
  · exact book_jailWorkerAt.mono fun _ h => h.trans hs₁

theorem keeps_trackTokens : OnValue (KeepsCounts P s) (trackTokens env ctx s entry w) := by
  refine .either (.after fun s₁ hnote => .ok ?_) <| .ok (.refl s)
  rw [updateTokenMismatchPairs_frame, noteDishonest_frame hnote]
  exact .of_same rfl rfl rfl rfl

theorem keeps_creditWorker : OnValue (KeepsCounts P s) (creditWorker ctx s entry w fee) := by
  refine .after fun _ _ => .ok ?_
  split
  · exact .of_same rfl rfl rfl rfl
  · exact .of_same rfl rfl rfl rfl

theorem counted_countVerifiers (hs : Counted P s.book) (hrows : ∀ v ∈ entry.verifierResults, ∀ a,
    env.accAddressFromBech32 v.address = some a → P a) :
    Counted P (countVerifiers env s entry).book := by
  unfold countVerifiers
  generalize entry.verifierResults = vs at hrows
  induction vs generalizing s with
  | nil => exact hs
  | cons v _ ih =>
    refine ih ?_ fun v hv => hrows v (.tail _ hv)
    exact counted_incrementVerifierEpochCount hs (hrows v (.head _))

theorem Billed.keeps (billed : Billed env ctx acc entry u w s ia fee) :
    KeepsCounts P (countVerifiers env acc.state entry) s := by
  obtain ⟨s₁, htrack, rfl⟩ := billed.tracked
  exact (keeps_trackTokens.get htrack).trans (.of_book rfl)

theorem keeps_closeBatch :
    OnValue (fun r => KeepsCounts P acc.state r.1) (closeBatch ctx acc msg) :=
  .after fun _ _ => .after fun _ _ => .ok (.of_same rfl rfl rfl rfl)

theorem keeps_closeJudgment {t : TaskId} {r : State × EpochStats × Bool} :
    KeepsCounts P r.1 (closeJudgment third t r) := by
  unfold closeJudgment
  split
  · exact .of_same rfl rfl rfl rfl
  · exact .of_same rfl rfl rfl rfl

theorem book_unfreezePending :
    OnValue (fun s' => s'.book = s.book) (unfreezePending env s apt) := by
  unfold unfreezePending
  split
  · exact .ok rfl
  · exact .after fun _ _ => .ok rfl

theorem book_chargeTimeoutFee :
    OnValue (fun s' => s'.book = s.book) (chargeTimeoutFee ctx s u m) := by
  refine .either ?_ <| .ok rfl
  split
  · exact .ok rfl
  · refine .after fun _ _ => .after fun _ _ => .either ?_ (.ok rfl)
    exact .after fun _ _ => .ok rfl

theorem book_expiryTurn : OnValue (fun s' => s'.book = s.book) (expiryTurn env ctx s m) := by
  refine .either (.ok rfl) ?_
  split
  · exact .ok rfl
  · refine .after fun _ _ => book_chargeTimeoutFee.bind fun s₁ hs₁ => ?_
    exact book_jailWorkerAt.mono fun s₂ hbook => hbook.trans hs₁

theorem book_handleFrozenBalanceTimeouts :
    OnValue (fun s' => s'.book = s.book) (handleFrozenBalanceTimeouts env ctx s) := by
  refine .either (.ok rfl) ?_
  have hloop := @OnValue.foldlM _ _ _ (fun s₁ : State => s₁.book = s.book) _ s
    ((expiredRows s.ledger ctx.height).map Prod.snd)
    (fun s₁ m hs₁ => (@book_expiryTurn env ctx s₁ m).mono fun _ h => h.trans hs₁) rfl
  exact hloop.bind fun s₁ hs₁ => .ok hs₁

theorem book_processDeposit : OnValue (fun r => r.1.book = s.book) (processDeposit env s a c) := by
  refine .either (.ok rfl) <| .after fun _ _ => ?_
  split
  · exact .ok rfl
  dsimp only
  split
  · exact .ok rfl
  · exact .after fun _ _ => .ok rfl

theorem book_processBatchReserve {msg : MsgBatchReserve} :
    OnValue (fun r => r.1.book = s.book) (processBatchReserve env ctx s msg) := by
  unfold processBatchReserve
  split
  · exact .ok rfl
  refine .either ?_ <| .either ?_ <| .after fun _ _ => .ok rfl
  · exact book_jailWorkerAt.bind fun s₁ hbook => .ok hbook
  · exact book_jailWorkerAt.bind fun s₁ hbook => .ok hbook

theorem book_processFraudProof {msg : MsgFraudProof} :
    OnValue (fun r => r.1.book = s.book) (processFraudProof env ctx s msg) := by
  have hrevoke : ∀ (s : State) (fp w reporter), OnValue (fun s' => s'.book = s.book)
      (revokeSettled env s fp w reporter) := by
    intro s fp w reporter
    unfold revokeSettled clawback
    split
    · refine .either (.either ?_ <| .ok rfl) <| .ok rfl
      exact .after fun _ _ => .after fun _ _ => .either (.ok rfl) <| .ok rfl
    · exact .ok rfl
  unfold processFraudProof
  split
  · exact .ok rfl
  · exact (hrevoke _ _ _ _).bind fun s₁ hs₁ => .after fun _ _ => .ok hs₁

theorem payFromModule_eq_some {dst : Addr} (h : s.payFromModule env dst c = some s') :
    env.blockedAddr dst = false ∧ s'.book = s.book := by
  obtain ⟨bank, hbank, rfl⟩ := Option.map_eq_some_iff.mp h
  exact ⟨(Host.sendCoinsFromModuleToAccount_eq_some hbank).1, rfl⟩

theorem book_processWithdraw :
    OnValue (fun r => r.1.book = s.book) (processWithdraw env s a c) := by
  refine .either (.ok rfl) ?_
  split
  · exact .ok rfl
  refine .after fun _ _ => .after fun _ _ => .either (.ok rfl) <|
    .after fun _ _ => .after fun _ _ => ?_
  split
  · exact .ok rfl
  · next hpay => exact .ok (payFromModule_eq_some hpay).2

/-! ## payouts -/

-- whoever can be paid has the property
variable (hpaid : ∀ t a, env.accAddressFromBech32 t = some a → env.blockedAddr a = false → P a)
include hpaid

/-- Whoever is paid and credited under an address has the property. -/
theorem credited_of_paid {t : String} {dst : Addr} (ht : env.accAddressFromBech32 t = some dst)
    (hpay : s.payFromModule env dst c = some s') :
    ∀ a, env.accAddressFromBech32 t = some a → P a := by
  intro a ha
  cases ht.symm.trans ha
  exact hpaid _ _ ht (payFromModule_eq_some hpay).1

theorem Payouts.keeps (h : Payouts env s s') : KeepsCounts P s s' := by
  induction h with
  | refl => exact .refl _
  | tail _ step ih =>
    refine ih.trans ?_
    cases step with
    | executor paid => exact .of_book (payFromModule_eq_some paid).2
    | verifier address paid credited =>
      refine (KeepsCounts.of_book (payFromModule_eq_some paid).2).trans ?_
      exact (keeps_incrementVerifierEpochFee (credited_of_paid hpaid address paid)).get credited

/-! ## an entry without audit -/

theorem keeps_settleSuccess : OnValue (fun r => ∀ p ∈ r, KeepsCounts P s p.1)
    (settleSuccess env ctx s entry u w ia fee) := by
  refine .after fun _ _ => .after fun _ _ => ?_
  refine payOutSuccess_payouts.bind_result (fun _ => .none) fun r hr => ?_
  exact keeps_creditWorker.bind fun s₂ hcredited => .after fun _ _ =>
    .some (((hr.keeps hpaid).trans hcredited).books rfl rfl)

theorem keeps_settleFailPerToken :
    OnValue (KeepsCounts P s) (settleFailPerToken env ctx s entry u w ia fee) := by
  have hpayout : ∀ failCoin, OnValue (KeepsCounts P s)
      (payFailPerToken env ctx s entry u ia failCoin) := by
    intro failCoin
    refine .after fun _ _ => .either (.after fun _ _ => ?_) <| .ok (.refl s)
    refine distributeFailFee_payouts.bind_result (fun _ => .ok (.refl s)) fun r hr => ?_
    exact .ok ((hr.keeps hpaid).books rfl rfl)
  refine .after fun _ _ => .after fun failCoin _ => (hpayout failCoin).bind fun s₁ hs₁ => ?_
  exact .after fun world _ => .ok (hs₁.books rfl rfl)

theorem keeps_settleFail {short : Coin → Bool} {task : TaskId} {rows : List VerifierResult}
    {record : Coin → SettledTaskID} : OnValue (fun r => ∀ s' ∈ r, KeepsCounts P s s')
    (settleFail env short ctx s task rows record u w ia fee) := by
  refine .after fun _ _ => .after fun _ _ => .after fun _ _ => .after fun _ _ => ?_
  exact payOutFail_payouts.bind_result (fun _ => .none) fun r hr =>
    book_jailWorker.bind fun s₂ hbook => .some ((hr.keeps hpaid).books rfl hbook)

/-! ## an entry of a batch -/

/-- **An entry** counts nothing, or once for each of its rows: when it is
admitted and not audited, whatever becomes of the payout. -/
theorem settleEntry_counts (h : settleEntry env ctx acc entry = .ok acc') :
    (admitEntry env ctx.height acc.state.ledger entry = none ∨ Audited env ctx acc.state entry) ∧
    KeepsCounts P acc.state acc'.state ∨ (admitEntry env ctx.height acc.state.ledger entry).isSome ∧
    ¬ Audited env ctx acc.state entry ∧
    KeepsCounts P (countVerifiers env acc.state entry) acc'.state := by
  cases settleEntry_path h with
  | rejected reject => exact .inl ⟨.inl reject, .refl _⟩
  | audited _ _ _ audited => exact .inl ⟨.inr audited, .of_book rfl⟩
  | refused _ _ _ _ _ billed =>
    exact .inr ⟨by rw [billed.admitted]; rfl, billed.unaudited, billed.keeps⟩
  | success _ _ _ _ _ billed _ _ settled =>
    exact .inr ⟨by rw [billed.admitted]; rfl, billed.unaudited,
      billed.keeps.trans ((keeps_settleSuccess hpaid).get settled _ rfl)⟩
  | fail _ _ _ _ _ billed _ settled =>
    refine .inr ⟨by rw [billed.admitted]; rfl, billed.unaudited, billed.keeps.trans ?_⟩
    obtain hper | hrequest := settled
    · exact (keeps_settleFailPerToken hpaid).get hper
    · exact (keeps_settleFail hpaid).get hrequest _ rfl

theorem counted_settleEntry (hacc : Counted P acc.state.book)
    (hrows : ∀ v ∈ entry.verifierResults, ∀ a, env.accAddressFromBech32 v.address = some a → P a)
    (h : settleEntry env ctx acc entry = .ok acc') : Counted P acc'.state.book := by
  obtain ⟨-, hkept⟩ | ⟨-, -, hkept⟩ := settleEntry_counts hpaid h
  · exact hkept.counted hacc
  · exact hkept.counted (counted_countVerifiers hacc hrows)

theorem counted_processBatchSettlement (hs : Counted P s.book)
    (hrows : ∀ entry ∈ msg.entries, ∀ v ∈ entry.verifierResults, ∀ a,
    env.accAddressFromBech32 v.address = some a → P a)
    (h : processBatchSettlement env ctx s msg = .ok (s', .ok batchId)) : Counted P s'.book := by
  obtain ⟨acc, hloop, hclose⟩ := processBatchSettlement_eq_ok.get h _ rfl
  refine (keeps_closeBatch.get hclose).counted ?_
  refine foldlM_invariant (P := fun acc : BatchAcc => Counted P acc.state.book) ?_ hs hloop
  intro acc acc' entry hentry hacc hturn
  exact counted_settleEntry hpaid hacc (hrows entry hentry) hturn

/-! ## an audited task -/

theorem keeps_settleAuditedSuccess : OnValue (fun r => ∀ s' ∈ r, KeepsCounts P s s')
    (settleAuditedSuccess env ctx s apt u w ia baseFee alreadyPaidFail) := by
  refine .after fun _ _ => .after fun _ _ => .after fun _ _ => .after fun _ _ => ?_
  refine payOutSuccess_payouts.bind_result (fun _ => .none) fun r hr => .after fun _ _ => ?_
  exact .some ((hr.keeps hpaid).books rfl rfl)

/-- **A settlement after audit** counts nothing. -/
theorem keeps_settleAuditedTask {asSuccess : Bool} {overrideOutputTokens : UInt32} :
    OnValue (fun r => KeepsCounts P s r.1)
    (settleAuditedTask env ctx s apt asSuccess alreadyPaidFail overrideOutputTokens) := by
  refine settleAuditedTask_rule (fun _ => .refl s) (fun _ _ => .refl s)
    (fun _ _ _ _ => .of_book rfl)
    fun _ _ _ _ _ _ _ _ _ => .either ?_ ?_
  · exact (keeps_settleAuditedSuccess hpaid).mono fun r hr s₁ hs₁ => (hr s₁ hs₁).books rfl rfl
  · exact (keeps_settleFail hpaid).mono fun r hr s₁ hs₁ => (hr s₁ hs₁).books rfl rfl

theorem keeps_judgeTokenFraud {median : UInt32} :
    OnValue (KeepsCounts P s) (judgeTokenFraud env ctx s apt median stats) := by
  unfold judgeTokenFraud
  simp only [jailVoters_eq]
  refine book_unfreezePending.bind fun s₁ hs₁ => book_jailWorkerAt.bind fun s₂ hworker =>
    book_jailAll.bind fun s₃ hvoters => (keeps_settleAuditedTask hpaid).bind fun r hr => .ok ?_
  have hbook : s₃.book = s.book := hvoters.trans (hworker.trans hs₁)
  refine KeepsCounts.trans ?_ hr
  exact KeepsCounts.trans (.of_book hbook) (.of_same rfl rfl rfl rfl)

theorem keeps_judgeSecond :
    OnValue (fun r => KeepsCounts P s r.1) (judgeSecond env ctx s apt auditPass stats) := by
  unfold judgeSecond
  simp only [jailWorkerAndVerifiers_eq, jailFailVerifiers, jailVoters_eq]
  refine .either ?_ <| .either ?_ <| .either ?_ ?_
  · exact (keeps_settleAuditedTask hpaid).bind fun r hr => .ok hr
  · exact book_jailAll.bind fun s₁ hbook => .ok (.of_book hbook)
  · exact (keeps_settleAuditedTask hpaid).bind fun r hr =>
      book_jailAll.bind fun s₂ hbook => .ok (hr.trans (.of_book hbook))
  · exact (keeps_settleAuditedTask hpaid).bind fun r hr => .ok hr

theorem keeps_judgeThird {origAudit : SecondVerificationRecord} :
    OnValue (fun r => KeepsCounts P s r.1)
    (judgeThird env ctx s apt auditPass origAudit stats) := by
  unfold judgeThird
  simp only [jailWorkerAndVerifiers_eq, jailSecondVerifiers, jailVoters_eq]
  refine .either ?_ <| .either ?_ <| .either ?_ <| .either ?_ ?_
  · exact book_jailAll.bind fun s₁ hsecond => book_jailAll.bind fun s₂ hbook =>
      .ok (.of_book (hbook.trans hsecond))
  · exact book_jailFailSecondVerifiers.bind fun s₁ hbook =>
      (keeps_settleAuditedTask hpaid).bind fun r hr => .ok ((KeepsCounts.of_book hbook).trans hr)
  · exact (keeps_settleAuditedTask hpaid).bind fun r hr => .ok hr
  · exact book_jailAll.bind fun s₁ hbook => .ok (.of_book hbook)
  · exact (keeps_settleAuditedTask hpaid).bind fun r hr => .ok hr

theorem keeps_processAuditJudgment :
    OnValue (KeepsCounts P s) (processAuditJudgment env ctx s ar) := by
  unfold processAuditJudgment
  split
  · exact .ok (.refl s)
  refine .either (.either (.ok (.of_same rfl rfl rfl rfl)) ?_) ?_
  · split
    · exact keeps_judgeTokenFraud hpaid
    · exact (keeps_judgeSecond hpaid).bind fun r hr => .ok (hr.trans keeps_closeJudgment)
  · split
    · exact .ok (.of_same rfl rfl rfl rfl)
    · exact (keeps_judgeThird hpaid).bind fun r hr => .ok (hr.trans keeps_closeJudgment)

theorem keeps_processSecondVerificationResult {msg : MsgSecondVerificationResult}
    (hvoter : ∀ a, env.accAddressFromBech32 msg.secondVerifier = some a → P a) :
    OnValue (fun r => KeepsCounts P s r.1) (processSecondVerificationResult env ctx s msg) := by
  refine .either (.ok (.refl s)) ?_
  split
  · exact .ok (.refl s)
  refine .either (.ok (.refl s)) <| .either (.ok (.refl s)) <| .either (.ok (.refl s)) ?_
  have hcount : ∀ ar, KeepsCounts P s (countVote env ctx
      (s.mapLedger (·.setSecondVerificationRecord ar)) msg.secondVerifier) := by
    intro ar
    refine KeepsCounts.trans (.of_book rfl) ?_
    exact (keeps_incrementSecondVerifierEpochCount hvoter).trans (.of_same rfl rfl rfl rfl)
  have hrecord : OnValue (KeepsCounts P s) (recordVote env ctx s msg) :=
    .either ((keeps_processAuditJudgment hpaid).mono fun _ => (hcount _).trans) <| .ok (hcount _)
  exact hrecord.bind fun s₁ hs₁ => .ok hs₁

/-! ## the end of a block -/

theorem keeps_timeoutTurn {turn : SecondVerificationPendingTask × HeightKey} :
    OnValue (KeepsCounts P s) (timeoutTurn env ctx third s turn) := by
  refine (keeps_settleAuditedTask hpaid).bind fun r hr => .ok (hr.trans (.of_book ?_))
  cases r.2 <;> rfl

theorem keeps_sweepQueue {timeout : Int} :
    OnValue (KeepsCounts P s) (sweepQueue env ctx third timeout s) := by
  refine .either (.foldlM _ (fun s₁ turn hs₁ => ?_) (.refl s)) <| .ok (.refl s)
  exact (keeps_timeoutTurn hpaid).mono fun _ => hs₁.trans

theorem keeps_payFund {pool per : Int} {voters vs : List String} :
    OnValue (fun r => KeepsCounts P s r.1) (payFund env pool per voters vs s d) := by
  induction vs generalizing s d with
  | nil => exact .ok (.refl s)
  | cons _ _ ih =>
    unfold payFund
    split
    · exact ih
    next a ha =>
    refine .after fun _ _ => .after fun coin _ => .either ?_ <| ih
    split
    · exact ih
    next s₁ hpay =>
    refine (keeps_incrementSecondVerifierEpochFee (credited_of_paid hpaid ha hpay)).bind
      fun book hbook => .after fun _ _ => ih.mono fun r hr => ?_
    exact ((KeepsCounts.of_book (payFromModule_eq_some hpay).2).trans hbook).trans hr

theorem keeps_distributeMultiVerificationFund {epoch : Int} :
    OnValue (KeepsCounts P s) (distributeMultiVerificationFund env ctx s epoch) := by
  refine .either (.ok (.refl s)) <| .either (.ok (.refl s)) <|
    .after fun _ _ => .either (.ok (.refl s)) <| .either (.ok (.refl s)) <|
    .after fun _ _ => .either (.ok (.refl s)) ?_
  exact (keeps_payFund hpaid).bind fun r hr => .ok (hr.books rfl rfl)

theorem keeps_closeEpoch : OnValue (KeepsCounts P s) (closeEpoch env ctx s) := by
  refine .either ?_ <| .ok (.refl s)
  refine (keeps_distributeMultiVerificationFund hpaid).mono fun _ => KeepsCounts.trans ?_
  exact .of_same rfl rfl rfl rfl

/-- **The end of a block** counts nothing. -/
theorem keeps_endBlock : OnValue (KeepsCounts P s) (endBlock env ctx s) := by
  have hcleanup : KeepsCounts P s (cleanupExpiredTasks ctx s) := .of_book rfl
  refine OnValue.bind (Q := KeepsCounts P s) ?_ fun s₂ hswept => ?_
  · exact (keeps_sweepQueue hpaid).bind fun s₁ hsecond =>
      (keeps_sweepQueue hpaid).mono fun s₂ => (hcleanup.trans hsecond).trans
  · exact book_handleFrozenBalanceTimeouts.bind fun s₃ hfrozen =>
      (keeps_closeEpoch hpaid).mono fun _ => (hswept.trans (.of_book hfrozen)).trans

/-! ## a transaction -/

variable (hsigns : ∀ t a, env.accAddressFromBech32 t = some a → env.signs a = true → P a)
include hsigns

theorem keeps_resultStep {acc : ResultAcc} {e : SecondVerificationBatchEntry}
    (hsigned : ∀ a, (acc.state.world.workers.get a).isSome → env.signs a = true) :
    OnValue (fun acc' => KeepsCounts P acc.state acc'.state) (resultStep env ctx acc e) := by
  refine resultStep_rule (.refl _) fun hentry => ?_
  obtain ⟨a, w, haddr, hworker⟩ := worker_of_batchEntrySigned hentry
  refine keeps_processSecondVerificationResult hpaid fun b hb => ?_
  cases haddr.symm.trans hb
  exact hsigns _ _ haddr (hsigned a (by rw [hworker]; rfl))

theorem keeps_results {entries : List SecondVerificationBatchEntry} {acc : ResultAcc}
    (horderly : Orderly env acc.state) : OnValue (fun acc' => KeepsCounts P acc.state acc'.state)
    (entries.foldlM (resultStep env ctx) acc) := by
  refine (OnValue.foldlM (P := fun acc₁ : ResultAcc => Orderly env acc₁.state ∧
    KeepsCounts P acc.state acc₁.state) entries ?_ ⟨horderly, .refl _⟩).mono fun _ h => h.2
  rintro acc₁ e ⟨horderly₁, hkept⟩
  refine .of_forall fun acc₂ hturn => ⟨?_, hkept.trans
    ((keeps_resultStep hpaid hsigns horderly₁.signed).get hturn)⟩
  obtain ⟨l', out, c, hstep, hmove, -⟩ := (resultStep_cases horderly₁.denominated).get hturn
  refine ⟨hmove.ledger ▸ hstep.denominated horderly₁.denominated, fun a ha => ?_⟩
  rw [hmove.registered] at ha
  exact horderly₁.signed a ha

/-- **A message** is refused, is no batch of settlements and counts nothing, or is
such a batch. -/
theorem deliver_counts (horderly : Orderly env s) (msg : Msg) : deliver env ctx s msg = s ∨
    ((∀ m, msg ≠ .batchSettlement m) ∧ KeepsCounts P s (deliver env ctx s msg)) ∨
    ∃ m batchId, msg = .batchSettlement m ∧
    processBatchSettlement env ctx s m = .ok (deliver env ctx s msg, .ok batchId) := by
  obtain hsame | ⟨⟨-, a, hsigner, hkey⟩, h⟩ := deliver_cases env ctx s msg
  · exact .inl hsame
  right
  cases msg with
  | deposit =>
    simp only [handle, withCreator] at h
    split at h
    · simp at h
    · exact .inl ⟨by simp, .of_book (book_processDeposit.get h)⟩
  | withdraw =>
    simp only [handle, withCreator] at h
    split at h
    · simp at h
    · exact .inl ⟨by simp, .of_book (book_processWithdraw.get h)⟩
  | batchSettlement m =>
    obtain ⟨⟨s₁, r⟩, hbatch, h⟩ := bind_eq_ok.mp h
    obtain ⟨hs, hr⟩ := Prod.mk.inj (Except.ok.inj h)
    cases r with
    | error => simp [Except.map] at hr
    | ok batchId => exact .inr ⟨m, batchId, rfl, hs ▸ hbatch⟩
  | batchReserve =>
    obtain ⟨⟨s₁, r⟩, hbatch, h⟩ := bind_eq_ok.mp h
    obtain ⟨hs, -⟩ := Prod.mk.inj (Except.ok.inj h)
    exact .inl ⟨by simp, .of_book (hs ▸ book_processBatchReserve.get hbatch)⟩
  | fraudProof => exact .inl ⟨by simp, .of_book (book_processFraudProof.get h)⟩
  | secondVerificationResult =>
    refine .inl ⟨by simp, (keeps_processSecondVerificationResult hpaid fun b hb => ?_).get h⟩
    cases hsigner.symm.trans hb
    exact hsigns _ _ hsigner hkey
  | secondVerificationResultBatch =>
    obtain ⟨⟨s₁, r⟩, hbatch, h⟩ := bind_eq_ok.mp h
    obtain ⟨acc, hloop, hbatch⟩ := bind_eq_ok.mp hbatch
    obtain ⟨hs, -⟩ := Prod.mk.inj (Except.ok.inj h)
    obtain ⟨hs₁, -⟩ := Prod.mk.inj (Except.ok.inj hbatch)
    rw [← hs, ← hs₁]
    exact .inl ⟨by simp, (keeps_results hpaid hsigns horderly).get hloop⟩

end FunaiChain.Settlement
