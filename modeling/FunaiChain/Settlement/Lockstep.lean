import FunaiChain.Settlement.Machine

/-!
# FunaiChain.Settlement.Lockstep

What the keeper does not look at.  Two states are alike when they agree on
everything that decides what is accepted and what is charged (`Alike`).  They may
differ in the ghost log, the batch records and their counter, the epoch counts of
verifiers, the statistics of closed epochs, and in whether a rate is stored or taken
from its default.

Each function of the keeper ends the same way on alike states and keeps them alike,
up to the messages and the EndBlock (`Alike.handle`, `Alike.endBlock`).  So two alike
chains run in lockstep (`Chain.Alike.step`).
-/

namespace FunaiChain.Settlement

section
variable {acc acc' : BatchAcc}

/-! ## the relation -/

/-- Bookkeeping that reads the same: the statistics from an epoch on, the rates,
the fee totals, and what is known of dishonest workers. -/
structure Book.Alike (now : Int) (b b' : Book) : Prop where
  stats : ∀ epoch, now ≤ epoch → b'.getEpochStats epoch = b.getEpochStats epoch
  secondRate : b'.getCurrentSecondVerificationRate = b.getCurrentSecondVerificationRate
  thirdRate : b'.getCurrentThirdVerificationRate = b.getCurrentThirdVerificationRate
  verifierFee : b'.verifierEpochFee = b.verifierEpochFee
  secondVerifierFee : b'.secondVerifierEpochFee = b.secondVerifierEpochFee
  dishonest : b'.dishonestCount = b.dishonestCount
  mismatch : b'.tokenMismatch = b.tokenMismatch

/-- States that differ in the ghost log and in the bookkeeping that is not read
from an epoch on. -/
def Alike (now : Int) (s s' : State) : Prop :=
  ∃ log book, Book.Alike now s.book book ∧
    s' = { s with ledger := { s.ledger with log := log }, book := book }

variable {env : Env} {ctx : Ctx} {now : Int} {s s' : State}

namespace Alike

variable (h : Alike now s s')
include h

/-- What does not depend on the log and the bookkeeping is the same. -/
theorem reads {α : Type} (f : State → α) (hf : ∀ s log book,
    f { s with ledger := { s.ledger with log := log }, book := book } = f s) : f s' = f s := by
  obtain ⟨log, book, -, rfl⟩ := h
  exact hf s log book

theorem params : s'.params = s.params := h.reads (·.params) fun _ _ _ => rfl

theorem world : s'.world = s.world := h.reads (·.world) fun _ _ _ => rfl

theorem book : Book.Alike now s.book s'.book := by
  obtain ⟨log, book, hbook, rfl⟩ := h
  exact hbook

theorem getInferenceAccount (a : Addr) : s'.getInferenceAccount a = s.getInferenceAccount a :=
  h.reads (·.getInferenceAccount a) fun _ _ _ => rfl

/-- The same world on both sides. -/
theorem withWorld (w : World) : Alike now { s with world := w } { s' with world := w } := by
  obtain ⟨log, book, hbook, rfl⟩ := h
  exact ⟨log, book, hbook, rfl⟩

theorem withBook {b b' : Book} (hb : Book.Alike now b b') :
    Alike now { s with book := b } { s' with book := b' } := by
  obtain ⟨log, book, -, rfl⟩ := h
  exact ⟨log, b', hb, rfl⟩

/-- An update of the ledger that does not look at the log. -/
theorem mapLedger (f : Ledger → Ledger)
    (hf : ∀ l log, f { l with log := log } = { f l with log := (f { l with log := log }).log }) :
    Alike now (s.mapLedger f) (s'.mapLedger f) := by
  obtain ⟨log, book, hbook, rfl⟩ := h
  exact ⟨_, book, hbook, by rw [State.mapLedger, hf s.ledger log]; rfl⟩

theorem withAccount (ia : InferenceAccount) :
    Alike now (s.mapLedger (·.setInferenceAccount ia)) (s'.mapLedger (·.setInferenceAccount ia)) :=
  h.mapLedger _ fun _ _ => rfl

end Alike

/-! ## bookkeeping -/

namespace Book.Alike

variable {b b' : Book} (h : Book.Alike now b b')
include h

theorem setEpochStats (stats : EpochStats) :
    Book.Alike now (b.setEpochStats stats) (b'.setEpochStats stats) where
  stats := fun epoch hepoch => by
    rw [getEpochStats_set, getEpochStats_set, h.stats epoch hepoch]
  secondRate := h.secondRate
  thirdRate := h.thirdRate
  verifierFee := h.verifierFee
  secondVerifierFee := h.secondVerifierFee
  dishonest := h.dishonest
  mismatch := h.mismatch

theorem incrementVerifierEpochCount (t : String) :
    Book.Alike now (incrementVerifierEpochCount env b t)
    (incrementVerifierEpochCount env b' t) := by
  unfold Settlement.incrementVerifierEpochCount
  cases env.accAddressFromBech32 t with
  | none => exact h
  | some => exact { h with }

theorem incrementSecondVerifierEpochCount (t : String) :
    Book.Alike now (incrementSecondVerifierEpochCount env b t)
    (incrementSecondVerifierEpochCount env b' t) := by
  unfold Settlement.incrementSecondVerifierEpochCount
  cases env.accAddressFromBech32 t with
  | none => exact h
  | some => exact { h with }

theorem incrementVerifierEpochFee (t : String) (x : Int) :
    Agree (Book.Alike now) (incrementVerifierEpochFee env b t x)
    (incrementVerifierEpochFee env b' t x) := by
  refine .either (.ok h) ?_
  cases env.accAddressFromBech32 t with
  | none => exact .ok h
  | some =>
    rw [h.verifierFee]
    exact .same fun fees => .ok { h with verifierFee := rfl }

theorem incrementSecondVerifierEpochFee (t : String) (x : Int) :
    Agree (Book.Alike now) (incrementSecondVerifierEpochFee env b t x)
    (incrementSecondVerifierEpochFee env b' t x) := by
  refine .either (.ok h) ?_
  cases env.accAddressFromBech32 t with
  | none => exact .ok h
  | some =>
    rw [h.secondVerifierFee]
    exact .same fun fees => .ok { h with secondVerifierFee := rfl }

theorem updateTokenMismatchPair (params : Params) (w v : String) (isMismatch : Bool) :
    Book.Alike now (updateTokenMismatchPair params b w v isMismatch)
    (updateTokenMismatchPair params b' w v isMismatch) := by
  unfold Settlement.updateTokenMismatchPair getTokenMismatchRecord
  rw [h.mismatch]
  exact { h with mismatch := rfl }

theorem updateTokenMismatchPairs (params : Params) (entry : SettlementEntry) (resolved : UInt32) :
    Book.Alike now (updateTokenMismatchPairs params b entry resolved)
    (updateTokenMismatchPairs params b' entry resolved) :=
  foldl_related _ (fun _ _ _ hb => hb.updateTokenMismatchPair ..) h

end Book.Alike

/-! ## penalties -/

namespace Alike

variable (h : Alike now s s') (entry : SettlementEntry)
include h

theorem jailWorker (a : Addr) : AgreeOn (Alike now) (·.jailWorker env ctx a) s s' := by
  dsimp only [AgreeOn, State.jailWorker]
  rw [h.world]
  exact .same fun w => .ok (h.withWorld w)

theorem jailWorkerAt (address : String) :
    AgreeOn (Alike now) (·.jailWorkerAt env ctx address) s s' := by
  dsimp only [AgreeOn, State.jailWorkerAt]
  cases env.accAddressFromBech32 address with
  | none => exact .ok h
  | some a => exact h.jailWorker a

theorem setDishonestCount (a : Addr) (n : UInt32) :
    Alike now (s.setDishonestCount a n) (s'.setDishonestCount a n) := by
  refine h.withBook ?_
  rw [h.book.dishonest]
  exact { h.book with dishonest := rfl }

theorem resetDishonestCount (a : Addr) :
    Alike now (s.resetDishonestCount a) (s'.resetDishonestCount a) := by
  refine h.withBook ?_
  rw [h.book.dishonest]
  exact { h.book with dishonest := rfl }

theorem incrementDishonestCount (a : Addr) :
    AgreeOn (Alike now) (·.incrementDishonestCount env ctx a) s s' := by
  have hcount : s'.getDishonestCount a = s.getDishonestCount a := by
    rw [State.getDishonestCount, h.book.dishonest]
    rfl
  dsimp only [AgreeOn, State.incrementDishonestCount]
  rw [hcount]
  have hset := h.setDishonestCount a (s.getDishonestCount a + 1)
  rw [hset.params]
  refine .either ?_ <| .ok hset
  exact (hset.jailWorker a).bind fun t t' ht => .ok (ht.resetDishonestCount a)

/-! ## payouts -/

theorem payFromModule (dst : Addr) (c : Coin) :
    Option.Rel (Alike now) (s.payFromModule env dst c) (s'.payFromModule env dst c) := by
  unfold State.payFromModule
  rw [h.world]
  cases env.sendCoinsFromModuleToAccount s.world.bank env.settlementAccount dst c with
  | none => exact .none
  | some => exact .some (h.withWorld _)

omit h in
theorem payVerifiers (denom : String) (total perVerifier : Int) (vs : List VerifierResult)
    (h : Alike now s s') (distributed : Int) : AgreeOn (Agree (Beside (Alike now)))
    (payVerifiers env denom total perVerifier vs · distributed) s s' := by
  induction vs generalizing s s' distributed with
  | nil => exact .ok (.ok ⟨h, rfl⟩)
  | cons v _ ih =>
    unfold Settlement.payVerifiers
    cases env.accAddressFromBech32 v.address with
    | none => exact ih h distributed
    | some a =>
      refine .same fun amount => .same fun coin => .either ?_ ?_
      · obtain ⟨hpaid, hpaid'⟩ | ⟨t, t', hpaid, hpaid', ht⟩ := rel_cases (h.payFromModule a coin)
        · rw [hpaid, hpaid']
          exact .ok (.error _)
        · rw [hpaid, hpaid']
          refine (ht.book.incrementVerifierEpochFee v.address amount).bind
            fun b b' hb => .same fun distributed => ?_
          exact ih (ht.withBook hb) distributed
      · exact .same fun distributed => ih h distributed

theorem shareAmongVerifiers (denom : String) (total : Int) (vs : List VerifierResult) :
    AgreeOn (Agree (Beside (Alike now))) (shareAmongVerifiers env · denom total vs) s s' := by
  refine .either (.ok (.ok ⟨h, rfl⟩)) <| .same fun perVerifier => ?_
  exact payVerifiers denom total perVerifier _ h 0

theorem payExecutor (denom : String) (x : Int) (w : Addr) :
    AgreeOn (Agree (Alike now)) (payExecutor env · denom x w) s s' := by
  refine .same fun coin => .either ?_ <| .ok (.ok h)
  obtain ⟨hpaid, hpaid'⟩ | ⟨t, t', hpaid, hpaid', ht⟩ := rel_cases (h.payFromModule w coin)
  · rw [hpaid, hpaid']
    exact .ok (.error _)
  · rw [hpaid, hpaid']
    exact .ok (.ok ht)

variable (u w : Addr) (ia : InferenceAccount) (fee : Coin)

theorem distributeSuccessFee (w : Addr) (vs : List VerifierResult) :
    AgreeOn (Agree (Beside (Alike now))) (distributeSuccessFee env · fee w vs) s s' := by
  dsimp only [AgreeOn, Settlement.distributeSuccessFee]
  rw [h.params]
  refine .same fun total => .same fun fund => ?_
  refine (h.shareAmongVerifiers fee.denom total vs).bind_result (fun e => .ok (.error e))
    fun t t' distributed ht => ?_
  refine .same fun rest => .same fun executor => ?_
  refine (payExecutor ht fee.denom executor w).bind fun r r' hr => ?_
  cases hr with
  | error e => exact .ok (.error e)
  | ok hr => exact .ok (.ok ⟨hr, rfl⟩)

theorem distributeFailFee (vs : List VerifierResult) :
    AgreeOn (Agree (Beside (Alike now))) (distributeFailFee env · fee vs) s s' := by
  dsimp only [AgreeOn, Settlement.distributeFailFee]
  rw [h.params]
  refine .either (.ok (.ok ⟨h, rfl⟩)) <| .same fun total => ?_
  refine (h.shareAmongVerifiers fee.denom total vs).bind_result (fun e => .ok (.error e))
    fun t t' distributed ht => ?_
  exact .ok (.ok ⟨ht, rfl⟩)

theorem payOutSuccess (w : Addr) (vs : List VerifierResult) :
    AgreeOn (Agree (Beside (Alike now))) (payOutSuccess env · fee w vs) s s' :=
  .either (h.distributeSuccessFee fee w vs) <| .ok (.ok ⟨h, rfl⟩)

theorem payOutFail (vs : List VerifierResult) :
    AgreeOn (Agree (Beside (Alike now))) (payOutFail env · fee vs) s s' :=
  .either (h.distributeFailFee fee vs) <| .ok (.ok ⟨h, rfl⟩)

/-! ## an entry -/

theorem countVerifiers : Alike now (countVerifiers env s entry) (countVerifiers env s' entry) :=
  foldl_related _ (fun _ _ v ht => ht.withBook (ht.book.incrementVerifierEpochCount v.address)) h

theorem trackTokens : AgreeOn (Alike now) (trackTokens env ctx · entry w) s s' := by
  dsimp only [AgreeOn, Settlement.trackTokens]
  rw [h.params]
  refine .either ?_ <| .ok h
  have hnoted : ∀ dishonest, Agree (Alike now) (noteDishonest env ctx s dishonest w)
      (noteDishonest env ctx s' dishonest w) := fun dishonest =>
    .either (h.incrementDishonestCount w) <| .ok h
  refine (hnoted _).bind fun t t' ht => .ok (ht.withBook ?_)
  rw [ht.params]
  exact ht.book.updateTokenMismatchPairs ..

theorem creditWorker : AgreeOn (Alike now) (creditWorker ctx · entry w fee) s s' := by
  dsimp only [AgreeOn, Settlement.creditWorker]
  rw [h.world]
  split
  · exact .same fun w' => .ok (((h.withWorld _).resetDishonestCount w).withWorld _)
  · exact .same fun w' => .ok ((h.withWorld _).withWorld _)

theorem unfreezeBalance (u : Addr) (t : TaskId) :
    Agree (Beside fun l l' => Alike now { s with ledger := l } { s' with ledger := l' })
      (unfreezeBalance s.ledger u t) (unfreezeBalance s'.ledger u t) := by
  obtain ⟨log, book, hbook, rfl⟩ := h
  unfold Settlement.unfreezeBalance
  cases s.ledger.frozenBalance.get t with
  | none => exact .ok ⟨⟨log, book, hbook, rfl⟩, rfl⟩
  | some =>
    refine .same fun frozen => ?_
    have hsame : { s.ledger with log := log }.getInferenceAccount u =
        s.ledger.getInferenceAccount u := rfl
    simp only [hsame]
    cases s.ledger.getInferenceAccount u with
    | none => exact .ok ⟨⟨log, book, hbook, rfl⟩, rfl⟩
    | some => exact .same fun rest => .ok ⟨⟨log, book, hbook, rfl⟩, rfl⟩

theorem settleSuccess :
    AgreeOn (Option.Rel (Beside (Alike now))) (settleSuccess env ctx · entry u w ia fee) s s' := by
  refine .same fun split => .same fun balance => ?_
  have hdebit := h.withAccount { ia with balance := balance }
  refine (hdebit.payOutSuccess split.1 w entry.verifierResults).bind_result (fun e => .ok .none)
    fun t t' paid ht => ?_
  refine (ht.creditWorker entry w split.1).bind fun t t' ht => .same fun _ => ?_
  exact .ok (.some ⟨ht.mapLedger _ fun _ _ => rfl, rfl⟩)

theorem payFailPerToken (failCoin : Coin) :
    AgreeOn (Alike now) (payFailPerToken env ctx · entry u ia failCoin) s s' := by
  refine .same fun covered => .either (.same fun balance => ?_) <| .ok h
  have hdebit := h.withAccount { ia with balance := balance }
  refine (hdebit.distributeFailFee failCoin entry.verifierResults).bind_result (fun e => .ok h)
    fun t t' paid ht => ?_
  exact .ok (ht.mapLedger _ fun _ _ => rfl)

theorem settleFailPerToken :
    AgreeOn (Alike now) (settleFailPerToken env ctx · entry u w ia fee) s s' := by
  dsimp only [AgreeOn, Settlement.settleFailPerToken]
  rw [h.params]
  refine .same fun failFee => .same fun failCoin => ?_
  refine (h.payFailPerToken entry u ia failCoin).bind fun t t' ht => ?_
  exact (ht.mapLedger _ fun _ _ => rfl).jailWorker w

theorem settleFail {short : Coin → Bool} {task : TaskId} {rows : List VerifierResult}
    {record : Coin → SettledTaskID} {u w : Addr} {ia : InferenceAccount} {fee : Coin} :
    AgreeOn (Option.Rel (Alike now))
    (settleFail env short ctx · task rows record u w ia fee) s s' := by
  dsimp only [AgreeOn, Settlement.settleFail]
  rw [h.params]
  refine .same fun amount => .same fun failFee => .same fun split => .same fun balance => ?_
  have hdebit := h.withAccount { ia with balance := balance }
  refine (hdebit.payOutFail split.1 rows).bind_result (fun e => .ok .none) fun t t' paid ht => ?_
  refine (ht.jailWorker w).bind fun t t' ht => ?_
  exact .ok (.some (ht.mapLedger _ fun _ _ => rfl))

end Alike

/-- The totals of a batch that differ in their state only. -/
def BatchAcc.Alike (now : Int) (acc acc' : BatchAcc) : Prop :=
  ∃ s', Settlement.Alike now acc.state s' ∧ acc' = { acc with state := s' }

namespace Alike

theorem settleDirect (hacc : acc.Alike now acc') (h : Alike now s s') (entry : SettlementEntry)
    (u w : Addr) (fee : Coin) :
    Agree (BatchAcc.Alike now) (settleDirect env ctx acc s entry u w fee)
    (settleDirect env ctx acc' s' entry u w fee) := by
  obtain ⟨t, -, rfl⟩ := hacc
  unfold Settlement.settleDirect
  rw [h.getInferenceAccount]
  cases s.getInferenceAccount u with
  | none => exact .error _
  | some ia =>
    refine .either ?_ <| .either ?_ ?_
    · refine (h.settleSuccess entry u w ia fee).bind fun r r' hr => ?_
      cases hr with
      | none => exact .ok ⟨s', h, rfl⟩
      | @some p q hr =>
        obtain ⟨t, paid⟩ := p
        obtain ⟨t', _⟩ := q
        obtain ⟨ht, rfl⟩ := hr
        exact .same fun total => .ok ⟨t', ht, rfl⟩
    · refine (h.settleFailPerToken entry u w ia fee).bind fun t t' ht => ?_
      exact .same fun total => .ok ⟨t', ht, rfl⟩
    · refine h.settleFail.bind_option (.ok ⟨s', h, rfl⟩) fun t t' ht => ?_
      exact .same fun total => .ok ⟨t', ht, rfl⟩

theorem auditRate (h : Alike now s s') (entry : SettlementEntry) :
    auditRate s' entry = auditRate s entry := by
  have hboost : calculateWorkerAuditBoost s.params s'.book entry.workerAddress =
      calculateWorkerAuditBoost s.params s.book entry.workerAddress := by
    unfold calculateWorkerAuditBoost tokenMismatchRecordsOf
    rw [h.book.mismatch]
  unfold Settlement.auditRate
  rw [h.params, h.book.secondRate, hboost]

theorem admitEntry (h : Alike now s s') (entry : SettlementEntry) :
    admitEntry env ctx.height s'.ledger entry = admitEntry env ctx.height s.ledger entry :=
  h.reads (fun s => Settlement.admitEntry env ctx.height s.ledger entry) fun _ _ _ => rfl

/-- **An entry** of a batch. -/
theorem settleEntry (h : acc.Alike now acc') (entry : SettlementEntry) :
    Agree (BatchAcc.Alike now) (settleEntry env ctx acc entry)
    (settleEntry env ctx acc' entry) := by
  obtain ⟨s', hs, rfl⟩ := h
  unfold Settlement.settleEntry
  rw [hs.admitEntry, hs.auditRate, hs.params]
  cases Settlement.admitEntry env ctx.height acc.state.ledger entry with
  | none => exact .ok ⟨s', hs, rfl⟩
  | some r =>
    obtain ⟨u, w⟩ := r
    refine .same fun rate => .either ?_ ?_
    · exact .ok ⟨_, hs.mapLedger (park ctx.height · entry) fun _ _ => rfl, rfl⟩
    · refine ((hs.countVerifiers entry).trackTokens entry w).bind fun t t' ht => ?_
      have hfee : actualFee t'.params entry = actualFee t.params entry := by rw [ht.params]
      rw [hfee]
      refine .same fun fee => (ht.unfreezeBalance u entry.taskId).bind_pair fun l l' r hl => ?_
      exact settleDirect ⟨s', hs, rfl⟩ hl entry u w fee

/-- The ids of the batches may differ. -/
theorem closeBatch (h : acc.Alike now acc') (hnow : now ≤ ctx.epoch) (msg : MsgBatchSettlement) :
    Agree (fun p q => Alike now p.1 q.1) (closeBatch ctx acc msg) (closeBatch ctx acc' msg) := by
  obtain ⟨s', hs, rfl⟩ := h
  unfold Settlement.closeBatch
  simp only [hs.book.stats ctx.epoch hnow]
  refine .same fun total => .same fun fees => .ok ?_
  exact hs.withBook { hs.book.setEpochStats _ with }

theorem verifyProposerSigOnRoot (h : Alike now s s') (proposer : String) (root sig : Bytes) :
    verifyProposerSigOnRoot env s' proposer root sig =
    verifyProposerSigOnRoot env s proposer root sig := by
  unfold Settlement.verifyProposerSigOnRoot
  rw [h.world]

end Alike

/-- Alike states and the same answer, apart from the value that is returned. -/
def SameAnswer {α : Type} (now : Int) (p q : State × Except Err α) : Prop :=
  Alike now p.1 q.1 ∧ (p.2.map fun _ => ()) = q.2.map fun _ => ()

namespace Alike

variable (h : Alike now s s')
include h

/-- **A batch of settlements.** -/
theorem processBatchSettlement (hnow : now ≤ ctx.epoch) (msg : MsgBatchSettlement) :
    AgreeOn (SameAnswer now) (processBatchSettlement env ctx · msg) s s' := by
  refine .either ?_ ?_
  · exact (h.jailWorkerAt msg.proposer).bind fun t t' ht => .ok ⟨ht, rfl⟩
  rw [h.verifyProposerSigOnRoot]
  cases Settlement.verifyProposerSigOnRoot env s msg.proposer msg.merkleRoot msg.proposerSig with
  | error => exact .ok ⟨h, rfl⟩
  | ok =>
    refine .either ?_ ?_
    · exact (h.jailWorkerAt msg.proposer).bind fun t t' ht => .ok ⟨ht, rfl⟩
    · have hstart : BatchAcc.Alike now ⟨s, 0, 0, 0⟩ ⟨s', 0, 0, 0⟩ := ⟨s', h, rfl⟩
      refine (Agree.foldlM msg.entries (fun _ _ e hacc => settleEntry hacc e) hstart).bind
        fun acc acc' hacc => ?_
      exact (closeBatch hacc hnow msg).bind fun p q hp => .ok ⟨hp, rfl⟩

/-! ## reservations and transfers -/

theorem freezeBalance (u : Addr) (t : TaskId) (c : Coin) :
    Agree (Agree fun l l' => Alike now { s with ledger := l } { s' with ledger := l' })
      (freezeBalance s.ledger u t c) (freezeBalance s'.ledger u t c) := by
  obtain ⟨log, book, hbook, rfl⟩ := h
  have hsame : { s.ledger with log := log }.getInferenceAccount u =
      s.ledger.getInferenceAccount u := rfl
  simp only [Settlement.freezeBalance, hsame]
  cases s.ledger.getInferenceAccount u with
  | none => exact .ok (.error _)
  | some =>
    refine .same fun available => .same fun short => .either (.ok (.error _)) ?_
    exact .same fun frozen => .same fun n => .ok (.ok ⟨log, book, hbook, rfl⟩)

theorem reserveRow (height : Int) (row : ReserveEntry) :
    Agree (Option.Rel fun l l' => Alike now { s with ledger := l } { s' with ledger := l' })
      (reserveRow env height s.ledger row) (reserveRow env height s'.ledger row) := by
  have hfrozen := h.freezeBalance
  obtain ⟨log, book, hbook, rfl⟩ := h
  refine .either (.ok .none) <| .either (.ok .none) <| .either (.ok .none) <| .either (.ok .none) <|
    .either (.ok .none) <| .either (.ok .none) ?_
  cases env.accAddressFromBech32 row.userAddress with
  | none => exact .ok .none
  | some u =>
    refine .either (.ok .none) ?_
    refine (hfrozen u row.taskId row.maxFee).bind fun r r' hr => ?_
    cases hr with
    | error => exact .ok .none
    | ok hr => exact .ok (.some (hr.mapLedger (·.note height _) fun _ _ => rfl))

theorem processBatchReserve (msg : MsgBatchReserve) :
    AgreeOn (Beside (Alike now)) (processBatchReserve env ctx · msg) s s' := by
  dsimp only [AgreeOn, Settlement.processBatchReserve]
  rw [h.verifyProposerSigOnRoot]
  cases Settlement.verifyProposerSigOnRoot env s msg.proposer msg.merkleRoot msg.proposerSig with
  | error => exact .ok ⟨h, rfl⟩
  | ok =>
    refine .either ?_ <| .either ?_ ?_
    · exact (h.jailWorkerAt msg.proposer).bind fun t t' ht => .ok ⟨ht, rfl⟩
    · exact (h.jailWorkerAt msg.proposer).bind fun t t' ht => .ok ⟨ht, rfl⟩
    · -- the loop works on the ledger alone
      have hloop : Agree (fun acc acc' : ReserveAcc =>
          ∃ l', Alike now { s with ledger := acc.ledger } { s' with ledger := l' } ∧
            acc' = { acc with ledger := l' })
          (msg.entries.foldlM (reserveStep env ctx.height) ⟨s.ledger, 0, 0⟩)
          (msg.entries.foldlM (reserveStep env ctx.height) ⟨s'.ledger, 0, 0⟩) := by
        refine Agree.foldlM _ ?_ ⟨s'.ledger, h, rfl⟩
        rintro acc _ row ⟨l', hl, rfl⟩
        refine (hl.reserveRow ctx.height row).bind_option (.ok ⟨l', hl, rfl⟩) fun l₁ l₁' hr => ?_
        exact .ok ⟨l₁', hr, rfl⟩
      refine hloop.bind ?_
      rintro acc _ ⟨l', hl, rfl⟩
      exact .ok ⟨hl, rfl⟩

theorem processDeposit (a : Addr) (c : Coin) :
    AgreeOn (Beside (Alike now)) (processDeposit env · a c) s s' := by
  refine .either (.ok ⟨h, rfl⟩) <| .same fun coins => ?_
  rw [h.world]
  cases env.sendCoins s.world.bank a env.settlementAccount coins with
  | none => exact .ok ⟨h, rfl⟩
  | some bank =>
    have hpaid := h.withWorld { s.world with bank := bank }
    dsimp only
    rw [hpaid.getInferenceAccount]
    cases State.getInferenceAccount { s with world := { s.world with bank := bank } } a with
    | none => exact .ok ⟨hpaid.mapLedger _ fun _ _ => rfl, rfl⟩
    | some =>
      exact .same fun balance => .ok ⟨hpaid.mapLedger _ fun _ _ => rfl, rfl⟩

theorem processWithdraw (a : Addr) (c : Coin) :
    AgreeOn (Beside (Alike now)) (processWithdraw env · a c) s s' := by
  refine .either (.ok ⟨h, rfl⟩) ?_
  rw [h.getInferenceAccount]
  cases s.getInferenceAccount a with
  | none => exact .ok ⟨h, rfl⟩
  | some ia =>
    refine .same fun available => .same fun short => .either (.ok ⟨h, rfl⟩) ?_
    refine .same fun balance => .same fun coins => ?_
    have hdebit := h.withAccount { ia with balance := balance }
    obtain ⟨hpaid, hpaid'⟩ | ⟨t, t', hpaid, hpaid', ht⟩ := rel_cases (hdebit.payFromModule a coins)
    · rw [hpaid, hpaid']
      exact .ok ⟨hdebit, rfl⟩
    · rw [hpaid, hpaid']
      exact .ok ⟨ht, rfl⟩

end Alike

end

variable {env : Env} {ctx : Ctx} {now : Int} {s s' : State} {epoch : Int}

namespace Alike

variable (h : Alike now s s') (apt : SecondVerificationPendingTask)
include h

/-! ## audits -/

theorem settleAuditedSuccess (u w : Addr) (ia : InferenceAccount) (fee : Coin) (paidFail : Bool) :
    AgreeOn (Option.Rel (Alike now))
    (settleAuditedSuccess env ctx · apt u w ia fee paidFail) s s' := by
  dsimp only [AgreeOn, Settlement.settleAuditedSuccess]
  rw [h.params]
  refine .same fun charge => .same fun split => .same fun distributable =>
    .same fun balance => ?_
  have hdebit := h.withAccount { ia with balance := balance }
  refine (hdebit.payOutSuccess distributable w (verifierRows apt)).bind_result (fun e => .ok .none)
    fun t t' paid ht => ?_
  dsimp only
  rw [ht.world]
  exact .same fun w' => .ok (.some ((ht.withWorld w').mapLedger _ fun _ _ => rfl))

/-- **The settlement of an audited task.** -/
theorem settleAuditedTask (asSuccess paidFail : Bool) (override : UInt32) :
    AgreeOn (Beside (Alike now))
    (settleAuditedTask env ctx · apt asSuccess paidFail override) s s' := by
  have hmark := h.reads (·.hasFraudMark apt.taskId) fun _ _ _ => rfl
  dsimp only [AgreeOn, Settlement.settleAuditedTask]
  rw [hmark]
  refine .either (.ok ⟨h, rfl⟩) ?_
  cases env.accAddressFromBech32 apt.userAddress with
  | none => exact .ok ⟨h, rfl⟩
  | some u =>
  cases env.accAddressFromBech32 apt.workerAddress with
  | none => exact .ok ⟨h, rfl⟩
  | some w =>
    dsimp only
    rw [h.getInferenceAccount]
    refine .either (.ok ⟨h, rfl⟩) ?_
    refine (h.unfreezeBalance u apt.taskId).bind_pair fun l l' r hl => ?_
    rw [hl.getInferenceAccount]
    cases State.getInferenceAccount { s with ledger := l } u with
    | none => exact .error _
    | some ia =>
      refine .same fun fee => ?_
      have hsettled : Agree (Option.Rel (Alike now)) (if asSuccess then
            Settlement.settleAuditedSuccess env ctx { s with ledger := l } apt u w ia fee paidFail
          else Settlement.settleAuditedFail env ctx { s with ledger := l } apt u w ia fee)
          (if asSuccess then
            Settlement.settleAuditedSuccess env ctx { s' with ledger := l' } apt u w ia fee paidFail
          else Settlement.settleAuditedFail env ctx { s' with ledger := l' } apt u w ia fee) :=
        .either (hl.settleAuditedSuccess apt u w ia fee paidFail) <| hl.settleFail
      refine hsettled.bind_option (.ok ⟨hl, rfl⟩) fun _ _ hr => ?_
      exact .ok ⟨hr, rfl⟩

theorem jailVoters (addresses : List String) (votes : List Bool) (wrong : Option Bool → Bool) :
    AgreeOn (Alike now) (jailVoters env ctx · addresses votes wrong) s s' :=
  .foldlM _ (fun _ _ _ ht => .either (ht.jailWorkerAt _) <| .ok ht) h

theorem jailWorkerAndVerifiers : AgreeOn (Alike now) (jailWorkerAndVerifiers env ctx · apt) s s' :=
  (h.jailWorkerAt apt.workerAddress).bind fun _ _ ht => ht.jailVoters ..

theorem jailFailSecondVerifiers (ar : SecondVerificationRecord) :
    AgreeOn (Alike now) (jailFailSecondVerifiers env ctx · ar) s s' := by
  refine .foldlM _ (fun t t' v ht => ?_) h
  dsimp only
  cases ar.results[v.2]? with
  | none => exact .error _
  | some vote =>
    cases vote with
    | true => exact .ok ht
    | false => exact ht.jailWorkerAt v.1

theorem unfreezePending : AgreeOn (Alike now) (unfreezePending env · apt) s s' := by
  dsimp only [AgreeOn, Settlement.unfreezePending]
  cases env.accAddressFromBech32 apt.userAddress with
  | none => exact .ok h
  | some u => exact (h.unfreezeBalance u apt.taskId).bind fun _ _ hp => .ok hp.1

variable (auditPass : Bool) (origAudit : SecondVerificationRecord) (stats : EpochStats)

theorem storeStats : Alike now (s.storeStats stats) (s'.storeStats stats) :=
  h.withBook (h.book.setEpochStats stats)

/-- The queues are updated without a look at the log. -/
theorem deletePending (t : TaskId) (third : Bool) :
    Alike now (s.mapLedger (·.deleteSecondVerificationPending t third))
    (s'.mapLedger (·.deleteSecondVerificationPending t third)) := by
  refine h.mapLedger _ fun l log => ?_
  cases third <;> rfl

theorem judgeTokenFraud (median : UInt32) (stats : EpochStats) :
    AgreeOn (Alike now) (judgeTokenFraud env ctx · apt median stats) s s' := by
  refine (h.unfreezePending apt).bind fun t t' ht => ?_
  refine (ht.jailWorkerAt apt.workerAddress).bind fun t t' ht => ?_
  refine (ht.jailVoters ..).bind fun t t' ht => ?_
  have hfailed := (ht.mapLedger (·.setSettledTask (auditRecordOf ctx.height apt .failed Coin.zero))
    fun _ _ => rfl).deletePending apt.taskId apt.isThirdVerification
  refine ((hfailed.storeStats _).settleAuditedTask apt false false median).bind fun p q hp => ?_
  exact .ok hp.1

/-- A judgment that settles the task: alike states, the same statistics and the
same answer. -/
theorem settledWith (asSuccess : Bool) (stats : EpochStats) :
    Agree (Beside (Alike now))
      (do
        let (s, settled) ← Settlement.settleAuditedTask env ctx s apt asSuccess false 0
        return (s, stats, settled))
      (do
        let (s, settled) ← Settlement.settleAuditedTask env ctx s' apt asSuccess false 0
        return (s, stats, settled)) := by
  refine (h.settleAuditedTask apt asSuccess false 0).bind_pair fun t t' settled ht => ?_
  exact .ok ⟨ht, rfl⟩

/-- A judgment that the task failed. -/
theorem failedWith :
    Agree (Beside (Alike now))
      (do
        let s ← Settlement.jailWorkerAndVerifiers env ctx s apt
        return (s.mapLedger (·.setSettledTask (auditRecordOf ctx.height apt .failed Coin.zero)),
          stats, true))
      (do
        let s ← Settlement.jailWorkerAndVerifiers env ctx s' apt
        return (s.mapLedger (·.setSettledTask (auditRecordOf ctx.height apt .failed Coin.zero)),
          stats, true)) := by
  refine (h.jailWorkerAndVerifiers apt).bind fun t t' ht => ?_
  exact .ok ⟨ht.mapLedger _ fun _ _ => rfl, rfl⟩

theorem judgeSecond :
    AgreeOn (Beside (Alike now)) (judgeSecond env ctx · apt auditPass stats) s s' := by
  refine .either ?_ <| .either ?_ <| .either ?_ ?_
  · exact h.settledWith apt true stats
  · exact h.failedWith apt _
  · refine (h.settleAuditedTask apt true false 0).bind_pair fun t t' settled ht => ?_
    exact (ht.jailVoters ..).bind fun t t' ht => .ok ⟨ht, rfl⟩
  · exact h.settledWith apt false _

theorem judgeThird :
    AgreeOn (Beside (Alike now)) (judgeThird env ctx · apt auditPass origAudit stats) s s' := by
  dsimp only [AgreeOn, Settlement.judgeThird]
  rw [h.params]
  refine .either ?_ <| .either ?_ <| .either ?_ <| .either ?_ ?_
  · exact (h.jailVoters ..).bind fun t t' ht => ht.failedWith apt _
  · exact (h.jailFailSecondVerifiers origAudit).bind fun t t' ht => ht.settledWith apt _ _
  · exact h.settledWith apt _ stats
  · exact h.failedWith apt stats
  · exact h.settledWith apt _ stats

omit h in
theorem closeJudgment {third : Bool} {t : TaskId} {r r' : State × EpochStats × Bool}
    (h : Beside (Alike now) r r') :
    Alike now (closeJudgment third t r) (closeJudgment third t r') := by
  obtain ⟨s, stats, settled⟩ := r
  obtain ⟨s', _, _⟩ := r'
  obtain ⟨hs, heq⟩ := h
  cases heq
  cases settled with
  | true => exact (hs.storeStats stats).deletePending t third
  | false => exact hs.storeStats stats

theorem getPending (t : TaskId) :
    s'.ledger.getSecondVerificationPending t = s.ledger.getSecondVerificationPending t :=
  h.reads (·.ledger.getSecondVerificationPending t) fun _ _ _ => rfl

theorem getRecord (t : TaskId) :
    s'.ledger.getSecondVerificationRecord t = s.ledger.getSecondVerificationRecord t :=
  h.reads (·.ledger.getSecondVerificationRecord t) fun _ _ _ => rfl

theorem escalate (height : Int) (apt : SecondVerificationPendingTask) :
    Alike now (s.mapLedger (escalate height · apt)) (s'.mapLedger (escalate height · apt)) :=
  h.mapLedger _ fun _ _ => rfl

section
variable (hnow : now ≤ ctx.epoch)
include hnow

/-- **The judgment.** -/
theorem processAuditJudgment (ar : SecondVerificationRecord) :
    AgreeOn (Alike now) (processAuditJudgment env ctx · ar) s s' := by
  have hstats : judgmentStats ctx s'.book = judgmentStats ctx s.book := by
    unfold judgmentStats
    rw [h.book.stats ctx.epoch hnow]
  dsimp only [AgreeOn, Settlement.processAuditJudgment]
  rw [h.getPending, h.getRecord, h.params, h.book.thirdRate, hstats]
  cases s.ledger.getSecondVerificationPending ar.taskId with
  | none => exact .ok h
  | some apt =>
    refine .either (.either ?_ ?_) ?_
    · exact .ok ((h.escalate ctx.height apt).storeStats _)
    · cases tokenFraud s.params ar apt with
      | some median => exact h.judgeTokenFraud apt median _
      | none => exact (h.judgeSecond apt _ _).bind fun r r' hr => .ok (closeJudgment hr)
    · cases s.ledger.getSecondVerificationRecord ar.taskId with
      | none => exact .ok ((h.deletePending ar.taskId true).storeStats _)
      | some origAudit =>
        exact (h.judgeThird apt _ origAudit _).bind fun r r' hr => .ok (closeJudgment hr)

theorem countVote (t : String) : Alike now (countVote env ctx s t) (countVote env ctx s' t) := by
  have hcount : Alike now { s with book := incrementSecondVerifierEpochCount env s.book t }
      { s' with book := incrementSecondVerifierEpochCount env s'.book t } :=
    h.withBook (h.book.incrementSecondVerifierEpochCount t)
  have hstats : voteStats ctx (incrementSecondVerifierEpochCount env s'.book t) =
      voteStats ctx (incrementSecondVerifierEpochCount env s.book t) := by
    unfold voteStats
    rw [(h.book.incrementSecondVerifierEpochCount t).stats ctx.epoch hnow]
  unfold Settlement.countVote
  dsimp only
  rw [hstats]
  exact hcount.storeStats _

theorem recordVote (msg : MsgSecondVerificationResult) :
    AgreeOn (Alike now) (recordVote env ctx · msg) s s' := by
  dsimp only [AgreeOn, Settlement.recordVote]
  rw [h.getRecord]
  have hrecord := h.mapLedger (·.setSecondVerificationRecord (addVote ctx.height msg
    (s.ledger.getSecondVerificationRecord msg.taskId))) fun _ _ => rfl
  have hvote := @countVote env ctx now _ _ hrecord hnow msg.secondVerifier
  rw [hvote.params]
  exact .either (hvote.processAuditJudgment hnow _) <| .ok hvote

/-- **An audit result.** -/
theorem processSecondVerificationResult (msg : MsgSecondVerificationResult) :
    AgreeOn (Beside (Alike now)) (processSecondVerificationResult env ctx · msg) s s' := by
  dsimp only [AgreeOn, Settlement.processSecondVerificationResult]
  rw [h.getRecord, h.getPending, h.params]
  refine .either (.ok ⟨h, rfl⟩) ?_
  cases s.ledger.getSecondVerificationPending msg.taskId with
  | none => exact .ok ⟨h, rfl⟩
  | some =>
    refine .either (.ok ⟨h, rfl⟩) <| .either (.ok ⟨h, rfl⟩) <| .either (.ok ⟨h, rfl⟩) ?_
    exact (h.recordVote hnow msg).bind fun t t' ht => .ok ⟨ht, rfl⟩

theorem processSecondVerificationBatchEntry (e : SecondVerificationBatchEntry) :
    AgreeOn (Beside (Alike now)) (processSecondVerificationBatchEntry env ctx · e) s s' := by
  have hsigned : batchEntrySigned env s' e = batchEntrySigned env s e := by
    unfold batchEntrySigned
    rw [h.world]
  dsimp only [AgreeOn, Settlement.processSecondVerificationBatchEntry]
  rw [hsigned]
  refine .either ?_ <| .ok ⟨h, rfl⟩
  refine (h.processSecondVerificationResult hnow e.single).bind_pair fun t t' r ht => ?_
  cases r with
  | ok | error => exact .ok ⟨ht, rfl⟩

theorem processSecondVerificationResultBatch (msg : MsgSecondVerificationResultBatch) :
    AgreeOn (Beside (Alike now)) (processSecondVerificationResultBatch env ctx · msg) s s' := by
  have hloop : Agree (fun acc acc' : ResultAcc =>
      ∃ t', Alike now acc.state t' ∧ acc' = { acc with state := t' })
      (msg.entries.foldlM (resultStep env ctx) ⟨s, 0, 0⟩)
      (msg.entries.foldlM (resultStep env ctx) ⟨s', 0, 0⟩) := by
    refine Agree.foldlM _ ?_ ⟨s', h, rfl⟩
    rintro acc _ e ⟨t', ht, rfl⟩
    refine (ht.processSecondVerificationBatchEntry hnow e).bind_pair fun u u' accepted hu => ?_
    cases accepted with
    | true | false => exact .ok ⟨u', hu, rfl⟩
  refine hloop.bind ?_
  rintro acc _ ⟨t', ht, rfl⟩
  exact .ok ⟨ht, rfl⟩

end

/-! ## fraud proofs -/

theorem checkFraudProof (msg : MsgFraudProof) :
    checkFraudProof env ctx s' msg = checkFraudProof env ctx s msg :=
  h.reads (Settlement.checkFraudProof env ctx · msg) fun _ _ _ => rfl

theorem revokeSettled (fp : Footprint) (w : Addr) (reporter : Option Addr) :
    AgreeOn (Alike now) (revokeSettled env · fp w reporter) s s' := by
  have hclawback : ∀ {t t' : State} (st : SettledTaskID), Alike now t t' →
      Agree (Alike now) (clawback env t st w reporter) (clawback env t' st w reporter) := by
    rintro t _ st ⟨log, book, hbook, rfl⟩
    refine .either (.same fun amount => .same fun coin => .either ?_ ?_) ?_
    all_goals exact .ok ⟨log, book, hbook, rfl⟩
  cases fp with
  | settled st =>
    exact .either (hclawback st (h.mapLedger _ fun _ _ => rfl)) <| .ok h
  | pending | reserved => exact .ok h

/-- **A fraud proof.** -/
theorem processFraudProof (msg : MsgFraudProof) :
    AgreeOn (Beside (Alike now)) (processFraudProof env ctx · msg) s s' := by
  dsimp only [AgreeOn, Settlement.processFraudProof]
  rw [h.checkFraudProof]
  cases Settlement.checkFraudProof env ctx s msg with
  | error => exact .ok ⟨h, rfl⟩
  | ok r =>
    obtain ⟨w, fp⟩ := r
    have hmarked := h.mapLedger (·.setFraudMark msg.taskId) fun _ _ => rfl
    refine (hmarked.revokeSettled fp w _).bind fun t t' ht => ?_
    rw [ht.world]
    exact .same fun w' => .ok ⟨ht.withWorld w', rfl⟩

/-! ## the end of a block -/

theorem timeoutTurn (third : Bool) (turn : SecondVerificationPendingTask × HeightKey) :
    AgreeOn (Alike now) (timeoutTurn env ctx third · turn) s s' := by
  have houtcome : timeoutOutcome s'.params s'.ledger third turn.1 =
      timeoutOutcome s.params s.ledger third turn.1 := by
    unfold timeoutOutcome
    rw [h.params, h.getRecord]
  dsimp only [AgreeOn, Settlement.timeoutTurn]
  rw [houtcome]
  refine (h.settleAuditedTask turn.1 _ false 0).bind_pair fun t t' settled ht => ?_
  have hfinish : ∀ {t t' : State}, Alike now t t' → Alike now
      (t.mapLedger fun l => l.setQueue third ((l.queue third).finish turn.1.taskId turn.2))
      (t'.mapLedger fun l => l.setQueue third ((l.queue third).finish turn.1.taskId turn.2)) := by
    intro t t' ht
    refine ht.mapLedger _ fun l log => ?_
    cases third <;> rfl
  cases settled with
  | true => exact .ok (hfinish ht)
  | false => exact .ok (hfinish (ht.mapLedger _ fun _ _ => rfl))

theorem sweepQueue (third : Bool) (timeout : Int) :
    AgreeOn (Alike now) (sweepQueue env ctx third timeout) s s' := by
  have hqueue := h.reads (·.ledger.queue third) fun _ _ _ => by cases third <;> rfl
  refine .either ?_ <| .ok h
  unfold processTimeoutsByIndex
  rw [hqueue]
  exact .foldlM _ (fun _ _ turn ht => ht.timeoutTurn third turn) h

theorem expiryTurn (m : FrozenTaskMeta) : AgreeOn (Alike now) (expiryTurn env ctx · m) s s' := by
  have hsettled := h.reads (·.getSettledTask m.taskId) fun _ _ _ => rfl
  have hcharged : ∀ {t t' : State} (u : Addr), Alike now t t' →
      Agree (Alike now) (chargeTimeoutFee ctx t u m) (chargeTimeoutFee ctx t' u m) := by
    intro t t' u ht
    unfold chargeTimeoutFee
    rw [ht.params, ht.getInferenceAccount]
    refine .either ?_ <| .ok ht
    cases t.getInferenceAccount u with
    | none => exact .ok ht
    | some =>
      refine .same fun coin => .same fun covered => .either ?_ <| .ok ht
      exact .same fun balance => .ok (ht.mapLedger _ fun _ _ => rfl)
  dsimp only [AgreeOn, Settlement.expiryTurn]
  rw [hsettled]
  refine .either (.ok (h.mapLedger _ fun _ _ => rfl)) ?_
  cases env.accAddressFromBech32 m.userAddress with
  | none => exact .ok h
  | some u =>
    refine (h.unfreezeBalance u m.taskId).bind fun p q hp => ?_
    refine (hcharged u hp.1).bind fun t t' ht => ?_
    exact (ht.mapLedger _ fun _ _ => rfl).jailWorkerAt m.workerAddress

theorem handleFrozenBalanceTimeouts :
    AgreeOn (Alike now) (handleFrozenBalanceTimeouts env ctx) s s' := by
  have hrows := h.reads (fun s => expiredRows s.ledger ctx.height) fun _ _ _ => rfl
  dsimp only [AgreeOn, Settlement.handleFrozenBalanceTimeouts]
  rw [h.params, hrows]
  refine .either (.ok h) ?_
  refine (Agree.foldlM _ (fun _ _ m ht => ht.expiryTurn m) h).bind fun t t' ht => ?_
  exact .ok (ht.mapLedger _ fun _ _ => rfl)

theorem updateRates (hepoch : now ≤ epoch) :
    Alike now (updateRates env s epoch) (updateRates env s' epoch) := by
  have hsecond : calculateSecondVerificationRate env s' epoch =
      calculateSecondVerificationRate env s epoch := by
    unfold calculateSecondVerificationRate
    rw [h.params, h.book.stats epoch hepoch]
  have hthird : calculateThirdVerificationRate env s' epoch =
      calculateThirdVerificationRate env s epoch := by
    unfold calculateThirdVerificationRate
    rw [h.params, h.book.stats epoch hepoch]
  unfold Settlement.updateRates
  rw [hsecond, hthird]
  exact h.withBook { h.book with secondRate := rfl, thirdRate := rfl }

omit h in
theorem payFund (pool perPersonTime : Int) (voters vs : List String) (h : Alike now s s')
    (distributed : Int) :
    AgreeOn (Beside (Alike now)) (payFund env pool perPersonTime voters vs · distributed) s s' := by
  induction vs generalizing s s' distributed with
  | nil => exact .ok ⟨h, rfl⟩
  | cons v _ ih =>
    unfold Settlement.payFund
    cases env.accAddressFromBech32 v with
    | none => exact ih h distributed
    | some a =>
      refine .same fun amount => .same fun coin => .either ?_ <| ih h distributed
      obtain ⟨hpaid, hpaid'⟩ | ⟨t, t', hpaid, hpaid', ht⟩ := rel_cases (h.payFromModule a coin)
      · rw [hpaid, hpaid']
        exact ih h distributed
      · rw [hpaid, hpaid']
        refine (ht.book.incrementSecondVerifierEpochFee v amount).bind
          fun b b' hb => .same fun distributed => ?_
        exact ih (ht.withBook hb) distributed

theorem distributeMultiVerificationFund (hepoch : now ≤ epoch) :
    AgreeOn (Alike now) (distributeMultiVerificationFund env ctx · epoch) s s' := by
  have hvoters := h.reads (fun s => epochVoters s.ledger epoch) fun _ _ _ => rfl
  dsimp only [AgreeOn, Settlement.distributeMultiVerificationFund]
  rw [h.params, h.book.stats epoch hepoch, hvoters]
  refine .either (.ok h) <| .either (.ok h) <| .same fun pool => ?_
  refine .either (.ok h) <| .either (.ok h) <| .same fun perPerson => ?_
  refine .either (.ok h) ?_
  refine (payFund pool perPerson _ _ h 0).bind_pair fun t t' distributed ht => ?_
  exact .ok (ht.mapLedger _ fun _ _ => rfl)

/-- **The end of a block**, when the epochs it looks back at are compared. -/
theorem endBlock (hnow : now ≤ ctx.closingEpoch) : AgreeOn (Alike now) (endBlock env ctx) s s' := by
  have hcleaned : Alike now (cleanupExpiredTasks ctx s) (cleanupExpiredTasks ctx s') := by
    unfold cleanupExpiredTasks
    rw [h.params]
    exact h.mapLedger _ fun _ _ => rfl
  have hsweeps : Agree (Alike now)
      (handleSecondVerificationTimeouts env ctx (cleanupExpiredTasks ctx s))
      (handleSecondVerificationTimeouts env ctx (cleanupExpiredTasks ctx s')) := by
    unfold handleSecondVerificationTimeouts
    rw [hcleaned.params]
    refine (hcleaned.sweepQueue false _).bind fun t t' ht => ?_
    rw [ht.params]
    exact ht.sweepQueue true _
  refine hsweeps.bind fun t t' ht => ht.handleFrozenBalanceTimeouts.bind fun t t' ht => ?_
  exact .either ((ht.updateRates hnow).distributeMultiVerificationFund hnow) <| .ok ht

/-! ## messages -/

/-- **Every message ends the same way** on alike states. -/
theorem handle (hnow : now ≤ ctx.epoch) (msg : Msg) :
    Agree (Beside (Alike now)) (handle env ctx s msg) (handle env ctx s' msg) := by
  have hcreator : ∀ (creator : String) (f g : Addr → Exec (State × Except Err Unit)),
      (∀ a, Agree (Beside (Alike now)) (f a) (g a)) →
      Agree (Beside (Alike now)) (withCreator env s creator f) (withCreator env s' creator g) := by
    intro creator f g hfg
    unfold withCreator
    cases env.accAddressFromBech32 creator with
    | none => exact .ok ⟨h, rfl⟩
    | some a => exact hfg a
  cases msg with
  | deposit m => exact hcreator _ _ _ fun a => h.processDeposit a m.amount
  | withdraw m => exact hcreator _ _ _ fun a => h.processWithdraw a m.amount
  | batchSettlement m =>
    exact (h.processBatchSettlement hnow m).bind fun p q hp => .ok hp
  | batchReserve m =>
    refine (h.processBatchReserve m).bind fun p q hp => .ok ⟨hp.1, ?_⟩
    rw [hp.2]
  | fraudProof m => exact h.processFraudProof m
  | secondVerificationResult m => exact h.processSecondVerificationResult hnow m
  | secondVerificationResultBatch m =>
    exact (h.processSecondVerificationResultBatch hnow m).bind fun p q hp => .ok ⟨hp.1, rfl⟩

theorem deliver (hnow : now ≤ ctx.epoch) (msg : Msg) :
    Alike now (deliver env ctx s msg) (deliver env ctx s' msg) := by
  unfold Settlement.deliver
  by_cases hadmitted : admitted env msg = true
  · rw [if_pos hadmitted, if_pos hadmitted]
    obtain ⟨e, hs, hs'⟩ | ⟨⟨t, r⟩, ⟨t', _⟩, hs, hs', ht, rfl⟩ :=
      agree_cases (@handle env ctx now s s' h hnow msg)
    · rw [hs, hs']
      exact h
    · rw [hs, hs']
      cases r with
      | error => exact h
      | ok => exact ht
  · rw [if_neg hadmitted, if_neg hadmitted]
    exact h

theorem applyOutside (o : Outside) : Alike now (applyOutside env s o) (applyOutside env s' o) := by
  obtain ⟨log, book, hbook, rfl⟩ := h
  have hcounters : Book.Alike now (Settlement.applyOutside env s o).book { book with
      verifierEpochCount := o.verifierEpochCount
      secondVerifierEpochCount := o.secondVerifierEpochCount
      verifierEpochFee := o.verifierEpochFee
      secondVerifierEpochFee := o.secondVerifierEpochFee } :=
    { hbook with verifierFee := rfl, secondVerifierFee := rfl }
  exact ⟨log, _, hcounters, rfl⟩

end Alike

/-! ## the chain -/

/-- Chains in the same block with alike states, from the epoch on that the
current block looks back at. -/
structure Chain.Alike (now : Int) (c c' : Chain) : Prop where
  ctx : c'.ctx = c.ctx
  state : Settlement.Alike now c.state c'.state
  now : now ≤ c.ctx.closingEpoch

theorem Ctx.closingEpoch_lt (ctx : Ctx) : ctx.closingEpoch < ctx.epoch :=
  Int.sub_one_lt_of_le (Int.le_refl _)

/-- **Every event ends the same way** on alike chains and keeps them alike. -/
theorem Chain.Alike.step {c c' : Chain} (h : c.Alike now c') (ev : Event) :
    Option.Rel (Chain.Alike now) (c.step env ev) (c'.step env ev) := by
  have hepoch : now ≤ c.ctx.epoch := by
    have hlt := c.ctx.closingEpoch_lt
    have hnow := h.now
    omega
  cases ev with
  | tx msg =>
    simp only [Chain.step, h.ctx]
    exact .some ⟨rfl, h.state.deliver hepoch msg, h.now⟩
  | endBlock next =>
    simp only [Chain.step, h.ctx]
    split
    · next hheight =>
      have hnext : now ≤ next.closingEpoch :=
        h.now.trans (Int.sub_le_sub_right (Int.tdiv_le_tdiv (by decide) (Int.le_of_lt hheight)) 1)
      obtain ⟨e, hs, hs'⟩ | ⟨t, t', hs, hs', ht⟩ :=
        agree_cases (@Settlement.Alike.endBlock env c.ctx now _ _ h.state h.now)
      · rw [hs, hs']
        exact .none
      · rw [hs, hs']
        exact .some ⟨rfl, ht, hnext⟩
    · exact .none
  | outside o => exact .some ⟨h.ctx, h.state.applyOutside o, h.now⟩

end FunaiChain.Settlement
