import FunaiChain.Settlement.Fraud
import Mathlib.Algebra.BigOperators.Group.List.Lemmas

/-!
# FunaiChain.Settlement.EndBlock

What the module does at the end of a block: the clean-up of old dedup
records, the sweep over the audit timeouts, the sweep over expired
reservations, and at every hundredth block the audit rates and the payout of
the audit fund of the epoch that ended.

The sweeps return counts that only feed events; they are left out.  A sweep
collects its work before it starts: the timeout sweep pairs the i-th task it
found with the i-th key it visited, although a key without a task is visited
too (`sweepTurns`).

`SweepStep`, `ExpiryStep` and `FundStep` say what the parts can do to the
ledger.
-/

namespace FunaiChain.Settlement

open MathInt

variable (env : Env)
variable {s s' : State} {ctx : Ctx} {l l' : Ledger} {third : Bool} {d d' height out per pool : Int}
  {ia : InferenceAccount} {params : Params} {turn : SecondVerificationPendingTask × HeightKey}
  {m : FrozenTaskMeta} {voters : List String}

/-! ## clean-up -/

/-- Is a record old enough to be removed?  One without expiry is kept. -/
def expiredRecord (cutoff : Int) (st : SettledTaskID) : Bool :=
  st.expireBlock ≠ 0 && 0 < st.settledAt && st.settledAt < cutoff

namespace Ledger

/-- Forget the old dedup records. -/
def cleanup (l : Ledger) (cutoff : Int) : Ledger :=
  { l with settledTasks := l.settledTasks.filter fun _ st => !expiredRecord cutoff st }

end Ledger

section
variable (ctx : Ctx) (s : State) (userAddr : Addr) (m : FrozenTaskMeta)

/-- `CleanupExpiredTasks`. -/
def cleanupExpiredTasks : State :=
  s.mapLedger (·.cleanup (ctx.height - s.params.taskCleanupBuffer))

/-! ## audit timeouts -/

/-- The timeout keys up to a cutoff; a negative height is stored as a large
one and lies outside the range. -/
def dueKeys (q : AuditQueue third) (cutoff : Int) : List HeightKey :=
  (q.timeouts.entries.map Prod.fst).filter fun k => 0 ≤ k.height && k.height ≤ cutoff

/-- The pending tasks found through keys. -/
def dueTasks (q : AuditQueue third) (keys : List HeightKey) : List SecondVerificationPendingTask :=
  keys.filterMap fun k => if k.taskId.isEmpty then none else q.pending.get k.taskId

/-- The turns of the sweep: the i-th task with the i-th key. -/
def sweepTurns (q : AuditQueue third) (cutoff : Int) :
    List (SecondVerificationPendingTask × HeightKey) :=
  (dueTasks q (dueKeys q cutoff)).zip (dueKeys q cutoff)

/-- Whether a timed-out task is settled as a success: by the original outcome,
and in third verification by the votes of the audit, if there are any. -/
def timeoutOutcome (params : Params) (l : Ledger) (third : Bool)
    (apt : SecondVerificationPendingTask) : Bool :=
  match third, l.getSecondVerificationRecord apt.taskId with
  | true, some ar => auditPasses params ar.results
  | _, _ => apt.originalStatus == .success

/-- One turn: settle, or record a failure, and remove the task and the key. -/
def timeoutTurn (third : Bool) (s : State) (turn : SecondVerificationPendingTask × HeightKey) :
    Exec State := do
  let (s', settled) ← settleAuditedTask env ctx s turn.1
    (timeoutOutcome s.params s.ledger third turn.1) false 0
  let s' := if settled then s'
    else s'.mapLedger (·.setSettledTask (auditRecordOf ctx.height turn.1 .failed Coin.zero))
  return s'.mapLedger fun l =>
    l.setQueue third ((l.queue third).finish turn.1.taskId turn.2)

/-- `processTimeoutsByIndex`. -/
def processTimeoutsByIndex (third : Bool) (cutoffHeight : Int) (s : State) : Exec State :=
  (sweepTurns (s.ledger.queue third) cutoffHeight).foldlM (timeoutTurn env ctx third) s

/-- Sweep one queue, once the chain is older than its timeout. -/
def sweepQueue (third : Bool) (timeout : Int) (s : State) : Exec State :=
  if 0 < ctx.height - timeout then
    processTimeoutsByIndex env ctx third (ctx.height - timeout) s
  else .ok s

/-- `HandleSecondVerificationTimeouts`. -/
def handleSecondVerificationTimeouts : Exec State := do
  let s ← sweepQueue env ctx false s.params.secondVerificationTimeout s
  sweepQueue env ctx true s.params.thirdVerificationTimeout s

/-! ## expired reservations -/

/-- `StoreFrozenTaskMeta`. -/
def storeFrozenTaskMeta : State :=
  s.mapLedger fun l =>
    { l with frozenTaskIndex := l.frozenTaskIndex.set ⟨m.expireBlock, m.taskId⟩ m ⟨rfl, rfl⟩ }

/-- The dedup record of an expired reservation. -/
def expiryRecordOf (height : Int) (m : FrozenTaskMeta) : SettledTaskID where
  taskId := m.taskId
  status := .failSettled
  expireBlock := m.expireBlock
  settledAt := height
  workerAddress := m.workerAddress
  originalVerifiers := []
  fee := Coin.zero
  userAddress := m.userAddress

/-- The fee of an expired reservation, in 64-bit arithmetic. -/
def timeoutFee (params : Params) (m : FrozenTaskMeta) : UInt64 :=
  m.maxFee * params.failSettlementFeeRatio.toUInt64 / 1000

/-- Charge the timeout fee when the balance covers it. -/
def chargeTimeoutFee : Exec State :=
  if 0 < timeoutFee s.params m then
    match s.getInferenceAccount userAddr with
    | none => .ok s
    | some ia => do
        let coin ← Coin.new defaultDenom (MathInt.ofUInt64 (timeoutFee s.params m))
        if ← ia.balance.isGTE coin then
          let balance ← ia.balance.sub coin
          return s.mapLedger fun l =>
            (l.setInferenceAccount { ia with balance := balance }).note ctx.height
              (.settled ⟨m.taskId, userAddr, coin.amount, coin.amount, 0, 0⟩)
        else return s
  else .ok s

/-- One turn of the sweep over expired reservations.  For a task that is
settled already only the reservation row is dropped. -/
def expiryTurn : Exec State :=
  if (s.getSettledTask m.taskId).isSome then
    .ok (s.mapLedger fun l => { l with frozenBalance := l.frozenBalance.erase m.taskId })
  else
    match env.accAddressFromBech32 m.userAddress with
    | none => .ok s
    | some userAddr => do
        let (l, _) ← unfreezeBalance s.ledger userAddr m.taskId
        let s ← chargeTimeoutFee ctx { s with ledger := l } userAddr m
        let s := s.mapLedger (·.setSettledTask (expiryRecordOf ctx.height m))
        s.jailWorkerAt env ctx m.workerAddress

/-- The rows of the expiry index that are due, in key order. -/
def expiredRows (l : Ledger) (height : Int) : List (HeightKey × FrozenTaskMeta) :=
  l.frozenTaskIndex.entries.takeWhile fun r => r.1.height ≤ height

/-- `HandleFrozenBalanceTimeouts`. -/
def handleFrozenBalanceTimeouts : Exec State :=
  if !s.params.perTokenBillingEnabled then .ok s
  else do
    let rows := expiredRows s.ledger ctx.height
    let s ← (rows.map Prod.snd).foldlM (expiryTurn env ctx) s
    return s.mapLedger fun l =>
      { l with frozenTaskIndex :=
          (rows.map Prod.fst).foldl (fun index k => index.erase k) l.frozenTaskIndex }

/-! ## epoch boundaries -/

def clampRate (lo hi rate : UInt32) : UInt32 :=
  let rate := if rate < lo then lo else rate
  if hi < rate then hi else rate

/-- `CalculateSecondVerificationRate`. -/
def calculateSecondVerificationRate (prevEpoch : Int) : UInt32 :=
  let stats := s.book.getEpochStats prevEpoch
  clampRate s.params.secondVerificationRateMin s.params.secondVerificationRateMax
    (env.floatRate s.params.secondVerificationBaseRate stats.failSettled stats.totalSettled
      stats.auditFail stats.secondVerificationTotal)

/-- `CalculateThirdVerificationRate`. -/
def calculateThirdVerificationRate (prevEpoch : Int) : UInt32 :=
  let stats := s.book.getEpochStats prevEpoch
  clampRate s.params.thirdVerificationRateMin s.params.thirdVerificationRateMax
    (env.floatRate s.params.thirdVerificationBaseRate stats.auditOverturn
      stats.secondVerificationTotal stats.thirdVerificationOverturn stats.thirdVerificationTotal)

/-- The audit rates for the next epoch. -/
def updateRates (prevEpoch : Int) : State :=
  { s with book := { s.book with
      currentSecondVerificationRate := some (calculateSecondVerificationRate env s prevEpoch)
      currentThirdVerificationRate := some (calculateThirdVerificationRate env s prevEpoch) } }

end

/-- The second verifiers of the votes processed in an epoch, one for each
vote. -/
def epochVoters (l : Ledger) (epoch : Int) : List String :=
  ((l.secondVerificationRecords.entries.map Prod.snd).filter
    fun ar => ar.processedAt.tdiv 100 = epoch).flatMap (·.secondVerifierAddresses)

/-- What a second verifier receives: the last one takes the rest. -/
def fundAmount (isLast : Bool) (fundPool perPersonTime distributed : Int) (count : Nat) :
    Exec Int :=
  if isLast then MathInt.sub fundPool distributed else MathInt.mul perPersonTime count

/-- The payout loop; a refused payout is passed over. -/
def payFund (fundPool perPersonTime : Int) (voters : List String) :
    List String → State → Int → Exec (State × Int)
  | [], s, distributed => .ok (s, distributed)
  | v :: rest, s, distributed =>
      match env.accAddressFromBech32 v with
      | none => payFund fundPool perPersonTime voters rest s distributed
      | some addr => do
          let amount ← fundAmount rest.isEmpty fundPool perPersonTime distributed (voters.count v)
          let coin ← Coin.new "ufai" amount
          if coin.isPositive then
            match s.payFromModule env addr coin with
            | none => payFund fundPool perPersonTime voters rest s distributed
            | some s => do
                let book ← incrementSecondVerifierEpochFee env s.book v amount
                let distributed ← MathInt.add distributed amount
                payFund fundPool perPersonTime voters rest { s with book := book } distributed
          else payFund fundPool perPersonTime voters rest s distributed

/-- `DistributeMultiVerificationFund`. -/
def distributeMultiVerificationFund (ctx : Ctx) (s : State) (epoch : Int) : Exec State :=
  let stats := s.book.getEpochStats epoch
  if stats.secondVerificationPersonCount = 0 then .ok s
  else if stats.totalFees = 0 then .ok s
  else do
    let fundPool ← MathInt.share stats.totalFees s.params.multiVerificationFundRatio 1000
    if fundPool = 0 then return s
    let voters := epochVoters s.ledger epoch
    if voters.length = 0 then return s
    let perPersonTime ← MathInt.quo fundPool voters.length
    if perPersonTime = 0 then return s
    let (s, distributed) ← payFund env fundPool perPersonTime voters
      (voters.dedup.insertionSort (· ≤ ·)) s 0
    return s.mapLedger (·.note ctx.height (.fundPaid epoch distributed))

/-- The work of an epoch boundary. -/
def closeEpoch (ctx : Ctx) (s : State) : Exec State :=
  let prevEpoch := ctx.height.tdiv 100 - 1
  if ctx.height.tmod 100 = 0 ∧ 0 ≤ prevEpoch then
    distributeMultiVerificationFund env ctx (updateRates env s prevEpoch) prevEpoch
  else .ok s

/-- `EndBlock`. -/
def endBlock (ctx : Ctx) (s : State) : Exec State := do
  let s := cleanupExpiredTasks ctx s
  let s ← handleSecondVerificationTimeouts env ctx s
  let s ← handleFrozenBalanceTimeouts env ctx s
  closeEpoch env ctx s

/-! ## what the timeout sweep can do -/

namespace Ledger

/-- Remove a swept task and the key it was paired with. -/
def finishTimeout (l : Ledger) (third : Bool) (t : TaskId) (key : HeightKey) : Ledger :=
  l.setQueue third ((l.queue third).finish t key)

end Ledger

section
variable (env : Env) (height : Int) (params : Params) (third : Bool)
  (turn : SecondVerificationPendingTask × HeightKey) (l : Ledger)

/-- What one turn of the sweep can do to the ledger. -/
inductive TimeoutStep : Ledger → Int → Prop
  | settled {l' : Ledger} {out : Int}
      (step : AuditedStep env height params turn.1 (timeoutOutcome params l third turn.1) 0 l l'
        true out) :
      TimeoutStep (l'.finishTimeout third turn.1.taskId turn.2) out
  | failed {l' : Ledger} {out : Int}
      (step : AuditedStep env height params turn.1 (timeoutOutcome params l third turn.1) 0 l l'
        false out) :
      TimeoutStep
        ((l'.setSettledTask (auditRecordOf height turn.1 .failed Coin.zero)).finishTimeout third
          turn.1.taskId turn.2) out

/-- The turns of a sweep, one after the other. -/
inductive Sweep : List (SecondVerificationPendingTask × HeightKey) → Ledger → Ledger → Int → Prop
  | nil (l : Ledger) : Sweep [] l l 0
  | cons {turn : SecondVerificationPendingTask × HeightKey}
      {turns : List (SecondVerificationPendingTask × HeightKey)} {l l₁ l₂ : Ledger} {x y : Int}
      (step : TimeoutStep env height params third turn l l₁ x)
      (rest : Sweep turns l₁ l₂ y) : Sweep (turn :: turns) l l₂ (x + y)

end

variable {env}

namespace Ledger

theorem Denominated.debit (h : l.Denominated) (x : Int) (hia : ia.balance.denom = defaultDenom) :
    (l.debit ia x).Denominated :=
  @Denominated.set l h { ia with balance := ⟨ia.balance.denom, ia.balance.amount - x⟩ } hia

theorem Denominated.settle (h : l.Denominated) {p : Payment} {st : SettledTaskID}
    (hia : ia.balance.denom = defaultDenom) : (l.settle height ia p st).Denominated :=
  (h.debit p.paid hia).congr rfl

end Ledger

/-- The settlement of an audited task keeps the denoms. -/
theorem AuditedStep.denominated {apt : SecondVerificationPendingTask} {asSuccess settled : Bool}
    {override : UInt32} (h : AuditedStep env height params apt asSuccess override l l' settled out)
    (hdenom : l.Denominated) : l'.Denominated := by
  cases h with
  | marked | stuck => exact hdenom
  | refused => exact hdenom.release _ _
  | charged _ u _ _ _ ia account =>
    exact (hdenom.release u apt.taskId).settle (hdenom.release u apt.taskId u ia account)

theorem TimeoutStep.denominated (h : TimeoutStep env height params third turn l l' out)
    (hdenom : l.Denominated) : l'.Denominated := by
  cases h with
  | settled step | failed step => exact (step.denominated hdenom).congr (by cases third <;> rfl)

theorem timeoutTurn_cases (hdenom : s.ledger.Denominated) :
    OnValue (fun s' => ∃ l' out, TimeoutStep env ctx.height s.params third turn s.ledger l' out ∧
    State.Moves env s s' l' out) (timeoutTurn env ctx third s turn) := by
  refine (settleAuditedTask_cases hdenom).bind ?_
  rintro ⟨s₁, settled⟩ ⟨l', out, hstep, hmove⟩
  cases settled with
  | true =>
    exact .ok ⟨_, _, .settled hstep, hmove.map (·.finishTimeout third turn.1.taskId turn.2)⟩
  | false =>
    exact .ok ⟨_, _, .failed hstep,
      (hmove.map (·.setSettledTask (auditRecordOf ctx.height turn.1 .failed Coin.zero))).map
        (·.finishTimeout third turn.1.taskId turn.2)⟩

theorem sweep_of_foldlM {turns : List (SecondVerificationPendingTask × HeightKey)}
    (hdenom : s.ledger.Denominated) :
    OnValue (fun s' => ∃ l' out, Sweep env ctx.height s.params third turns s.ledger l' out ∧
    State.Moves env s s' l' out) (turns.foldlM (timeoutTurn env ctx third) s) := by
  induction turns generalizing s with
  | nil => exact .ok ⟨_, _, .nil _, .refl s⟩
  | cons _ _ ih =>
    refine (timeoutTurn_cases hdenom).bind ?_
    rintro s₁ ⟨l₁, x, hstep, hmove⟩
    refine (ih (hmove.ledger ▸ hstep.denominated hdenom)).mono ?_
    rintro s₂ ⟨l₂, y, hrest, hmove'⟩
    rw [hmove.params, hmove.ledger] at hrest
    exact ⟨l₂, x + y, .cons hstep hrest, hmove.trans hmove'⟩

section
variable (env : Env) (height : Int) (params : Params) (third : Bool) (timeout : Int) (l : Ledger)

/-- What the sweep of one queue can do to the ledger: nothing yet, or the turns
that are due. -/
inductive SweepStep : Ledger → Int → Prop
  | early (young : height - timeout ≤ 0) : SweepStep l 0
  | swept {l' : Ledger} {out : Int} (old : 0 < height - timeout)
      (turns : Sweep env height params third (sweepTurns (l.queue third) (height - timeout)) l l'
        out) :
      SweepStep l' out

end

/-- **The sweep of a queue** is a `SweepStep` of the ledger. -/
theorem sweepQueue_cases {timeout : Int} (hdenom : s.ledger.Denominated) :
    OnValue (fun s' => ∃ l' out, SweepStep env ctx.height s.params third timeout s.ledger l' out ∧
    State.Moves env s s' l' out) (sweepQueue env ctx third timeout s) := by
  refine .ite (fun hold => (sweep_of_foldlM hdenom).mono ?_) fun hyoung => .ok ?_
  · rintro s' ⟨l', out, hsweep, hmove⟩
    exact ⟨l', out, .swept hold hsweep, hmove⟩
  · exact ⟨_, _, .early (Int.not_lt.mp hyoung), .refl s⟩

/-! ## what the sweep over reservations can do -/

section
variable (env : Env) (height : Int) (params : Params) (m : FrozenTaskMeta) (l : Ledger)

/-- What one turn of the sweep over expired reservations can do to the ledger.
Nothing leaves the settlement account. -/
inductive ExpiryStep : Ledger → Prop
  | dropped (settled : (l.getSettledTask m.taskId).isSome) :
      ExpiryStep { l with frozenBalance := l.frozenBalance.erase m.taskId }
  | skipped : ExpiryStep l
  | uncharged (u : Addr) (user : env.accAddressFromBech32 m.userAddress = some u) :
      ExpiryStep ((l.release u m.taskId).setSettledTask (expiryRecordOf height m))
  | charged (u : Addr) (user : env.accAddressFromBech32 m.userAddress = some u)
      (ia : InferenceAccount)
      (account : (l.release u m.taskId).getInferenceAccount u = some ia) (fee : Int)
      (hfee : fee = MathInt.ofUInt64 (timeoutFee params m)) (covered : fee ≤ ia.balance.amount) :
      ExpiryStep ((l.release u m.taskId).settle height ia ⟨m.taskId, u, fee, fee, 0, 0⟩
          (expiryRecordOf height m))

end

/-- The charge of an expired reservation, before the record is written. -/
theorem chargeTimeoutFee_cases {u : Addr} :
    OnValue (fun s' => s' = s ∨ ∃ ia, s.ledger.getInferenceAccount u = some ia ∧
      ofUInt64 (timeoutFee s.params m) ≤ ia.balance.amount ∧ s' = s.mapLedger fun l =>
        (l.debit ia (ofUInt64 (timeoutFee s.params m))).note ctx.height
          (.settled ⟨m.taskId, u, ofUInt64 (timeoutFee s.params m),
            ofUInt64 (timeoutFee s.params m), 0, 0⟩)) (chargeTimeoutFee ctx s u m) := by
  refine .either ?_ <| .ok (.inl rfl)
  split
  · exact .ok (.inl rfl)
  next ia hia =>
  refine .after fun coin hcoin => .after fun b hb => .ite (fun hle => ?_) fun _ => .ok (.inl rfl)
  obtain ⟨-, -, rfl⟩ := Coin.new_eq_ok.mp hcoin
  obtain ⟨-, rfl⟩ := Coin.isGTE_eq_ok.mp hb
  refine .after fun balance hsub => .ok ?_
  obtain ⟨-, -, -, rfl⟩ := Coin.sub_eq_ok.mp hsub
  exact .inr ⟨ia, hia, by simpa using hle, rfl⟩

/-- **One turn of the sweep over reservations** is an `ExpiryStep`. -/
theorem expiryTurn_cases :
    OnValue (fun s' => ∃ l', ExpiryStep env ctx.height s.params m s.ledger l' ∧
    State.Moves env s s' l' 0) (expiryTurn env ctx s m) := by
  refine .ite (fun hsettled => .ok ⟨_, .dropped hsettled, ?_⟩) fun _ => ?_
  · exact (State.Moves.refl s).map fun l =>
      { l with frozenBalance := l.frozenBalance.erase m.taskId }
  split
  · exact .ok ⟨_, .skipped, .refl s⟩
  next u hu =>
  refine .after fun ⟨l, r⟩ hunfreeze => ?_
  obtain rfl := unfreezeBalance_eq hunfreeze
  have hrelease : State.Moves env s (s.mapLedger (·.release u m.taskId))
    (s.ledger.release u m.taskId) 0 := (State.Moves.refl s).map _
  refine chargeTimeoutFee_cases.bind fun s₁ hcharge => State.quiet_jailWorkerAt.mono
    fun s₂ hjail => ?_
  obtain rfl | ⟨ia, hia, hle, rfl⟩ := hcharge
  · exact ⟨_, .uncharged u hu,
      (hrelease.map (·.setSettledTask (expiryRecordOf ctx.height m))).quiet hjail⟩
  · have hmove := ((hrelease.map fun l =>
      (l.debit ia (ofUInt64 (timeoutFee s.params m))).note ctx.height
        (.settled ⟨m.taskId, u, ofUInt64 (timeoutFee s.params m),
          ofUInt64 (timeoutFee s.params m), 0, 0⟩)).map
      (·.setSettledTask (expiryRecordOf ctx.height m))).quiet hjail
    exact ⟨_, .charged u hu ia hia _ rfl hle, hmove⟩

/-- With an empty expiry index the sweep over reservations does nothing. -/
theorem handleFrozenBalanceTimeouts_of_empty (hempty : s.ledger.frozenTaskIndex = ∅) :
    OnValue (s = ·) (handleFrozenBalanceTimeouts env ctx s) := by
  have hrows : expiredRows s.ledger ctx.height = [] := by
    rw [expiredRows, hempty]
    rfl
  unfold handleFrozenBalanceTimeouts
  rw [hrows]
  exact .either (.ok rfl) <| .ok rfl

/-! ## what the payout of the fund can do -/

/-- The payout of one second verifier, whichever way the loop takes it. -/
theorem payFund_cons {rest : List String} {v : String}
    (h : payFund env pool per voters (v :: rest) s d = .ok (s', d')) :
    payFund env pool per voters rest s d = .ok (s', d') ∨
    ∃ s₁ amount, amount = (if rest.isEmpty then pool - d else per * voters.count v) ∧
      0 < amount ∧ State.Pays env s s₁ amount ∧
      payFund env pool per voters rest s₁ (d + amount) = .ok (s', d') := by
  unfold payFund at h
  split at h
  · exact .inl h
  · obtain ⟨amount, hamount, h⟩ := bind_eq_ok.mp h
    obtain ⟨coin, hcoin, h⟩ := bind_eq_ok.mp h
    obtain ⟨-, hnn, rfl⟩ := Coin.new_eq_ok.mp hcoin
    split at h
    · next hpos =>
      have hpos : 0 < amount := by simpa [Coin.isPositive] using hpos
      split at h
      · exact .inl h
      · next s₁ hpay =>
        right
        obtain ⟨book, hbook, h⟩ := bind_eq_ok.mp h
        obtain ⟨d₁, hadd, h⟩ := bind_eq_ok.mp h
        obtain ⟨rfl, -⟩ := add_eq_ok.mp hadd
        refine ⟨_, amount, ?_, hpos, ?_, h⟩
        · unfold fundAmount at hamount
          split at hamount
          · next he => rw [if_pos he]; exact (sub_eq_ok.mp hamount).1
          · next he => rw [if_neg he]; exact (mul_eq_ok.mp hamount).1
        · have hquiet : State.Quiet env s₁ { s₁ with book := book } :=
            State.Quiet.ofBook (State.epochStats_incrementSecondVerifierEpochFee.get hbook)
          simpa using (State.pays_payFromModule rfl hnn hpay).trans hquiet.pays
    · exact .inl h

/-- The votes of the listed second verifiers. -/
def votesOf (voters vs : List String) : Nat := (vs.map voters.count).sum

/-- The loop pays out what it reports, and never more than the pool. -/
theorem payFund_spec {vs : List String} (h : payFund env pool per voters vs s d = .ok (s', d')) :
    d ≤ d' ∧ State.Pays env s s' (d' - d) ∧
    (0 ≤ per → d + per * votesOf voters vs ≤ pool → d' ≤ pool) := by
  induction vs generalizing s d with
  | nil =>
    simp only [payFund, Except.ok.injEq, Prod.mk.injEq] at h
    obtain ⟨rfl, rfl⟩ := h
    refine ⟨le_refl d, by simpa using State.Pays.refl s, fun _ hroom => ?_⟩
    simpa [votesOf] using hroom
  | cons v rest ih =>
    have hvotes : (votesOf voters (v :: rest) : Int) = voters.count v + votesOf voters rest := by
      simp [votesOf]
    obtain h | ⟨s₁, amount, hamount, hpos, hpays, h⟩ := payFund_cons h
    · obtain ⟨hle, hpays, hroom⟩ := ih h
      refine ⟨hle, hpays, fun hper hr => hroom hper ?_⟩
      rw [hvotes, mul_add] at hr
      have : 0 ≤ per * voters.count v := mul_nonneg hper (Int.natCast_nonneg _)
      omega
    · obtain ⟨hle, hpays', hroom⟩ := ih h
      refine ⟨by omega, ?_, fun hper hr => hroom hper ?_⟩
      · have := hpays.trans hpays'
        rwa [show amount + (d' - (d + amount)) = d' - d by omega] at this
      · rw [hvotes, mul_add] at hr
        cases rest with
        | nil =>
          -- the last one takes the remainder, so the pool is met exactly
          simp [votesOf, hamount]
        | cons => grind

/-- Sorting the distinct voters loses no vote. -/
theorem votesOf_sorted (voters : List String) :
    votesOf voters (voters.dedup.insertionSort (· ≤ ·)) = voters.length := by
  rw [← List.sum_map_count_dedup_eq_length voters]
  exact ((List.perm_insertionSort (· ≤ ·) voters.dedup).map voters.count).sum_eq

section
variable (height : Int) (params : Params) (epoch fees : Int) (l : Ledger)

/-- What the payout of the fund can do to the ledger: nothing, or one payout
within the fund's part of the counted fees. -/
inductive FundStep : Ledger → Int → Prop
  | idle : FundStep l 0
  | paid (sent : Int) (nonneg : 0 ≤ sent) (within : 0 ≤ fees → sent ≤ fundPart params fees) :
      FundStep (l.note height (.fundPaid epoch sent)) sent

end

/-- **The payout of the fund** is a `FundStep` of the ledger. -/
theorem distributeMultiVerificationFund_cases {epoch : Int} : OnValue (fun s' => ∃ l' out,
    FundStep ctx.height s.params epoch (s.book.fees epoch) s.ledger l' out ∧
    State.Moves env s s' l' out) (distributeMultiVerificationFund env ctx s epoch) := by
  have hsame : ∃ l' out, FundStep ctx.height s.params epoch (s.book.fees epoch)
      s.ledger l' out ∧ State.Moves env s s l' out := ⟨_, _, .idle, .refl s⟩
  refine .either (.ok hsame) <| .either (.ok hsame) <|
    .after fun pool hpool => .either (.ok hsame) <| .ite (fun _ => .ok hsame)
    fun hvoters => .after fun per hper => .either (.ok hsame) <| .after fun ⟨s₁, sent⟩ hpay => ?_
  obtain ⟨-, -, hpool⟩ := share_eq_ok.mp hpool
  obtain ⟨hne, rfl⟩ := quo_eq_ok.mp hper
  obtain ⟨hnn, hpays, hroom⟩ := payFund_spec hpay
  rw [Int.sub_zero] at hpays
  have hmove := ((State.Moves.refl s).pays hpays).map (·.note ctx.height (.fundPaid epoch sent))
  rw [Int.zero_add] at hmove
  refine .ok ⟨_, _, .paid sent hnn fun hfees => ?_, hmove⟩
  have hpool : pool = fundPart s.params (s.book.fees epoch) := hpool
  have hnnpool : 0 ≤ pool := by
    rw [hpool]
    exact Int.tdiv_nonneg (mul_nonneg hfees (Int.natCast_nonneg _)) (by decide)
  rw [← hpool]
  rw [votesOf_sorted, Int.tdiv_eq_ediv_of_nonneg hnnpool] at hroom
  refine hroom (Int.ediv_nonneg hnnpool (Int.natCast_nonneg _)) ?_
  have := Int.ediv_mul_le pool hne
  omega

end FunaiChain.Settlement
