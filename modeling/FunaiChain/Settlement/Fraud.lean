import FunaiChain.Settlement.Audit

/-!
# FunaiChain.Settlement.Fraud

`ProcessFraudProof`: the footprint, window and reporter checks, the two
contradicting signatures of the worker, the mark, and the penalties.  The
clawback moves coins between two ordinary accounts and its failure is
ignored; the ledger only gains the mark and, for a settled task, the status.

`processFraudProof_cases` says what an accepted proof does.
-/

namespace FunaiChain.Settlement

variable (env : Env)
variable {s s' : State} {workerAddr : Addr} {msg : MsgFraudProof} {ctx : Ctx} {fp : Footprint}
  {reporter : Option Addr}

/-! ## the checks -/

/-- What the chain knows of a task. -/
inductive Footprint
  | settled (st : SettledTaskID)
  | pending (apt : SecondVerificationPendingTask)
  | reserved
  deriving DecidableEq, Repr

/-- The first trace of a task that is found. -/
def footprint (l : Ledger) (t : TaskId) : Option Footprint :=
  match l.getSettledTask t with
  | some st => some (.settled st)
  | none =>
      match l.getSecondVerificationPending t with
      | some apt => some (.pending apt)
      | none => if l.frozenBalance.has t then some .reserved else none

/-- The end of the fraud window in `int64` arithmetic. -/
def windowEnd (start : Int) (fraudWindowBlocks : UInt64) : Int :=
  (start + fraudWindowBlocks.toNat).bmod (2 ^ 64)

/-- The window check: `what` names the height it starts from. -/
def checkWindow (params : Params) (height : Int) (what : String) (start : Int) : Except Err Unit :=
  ensure (!decide (0 < start ∧ windowEnd start params.fraudWindowBlocks < height))
    (.errorf ("FraudProof: window expired (" ++ what ++ "=" ++ toString start ++ ", current=" ++
      toString height ++ ", window=" ++ toString params.fraudWindowBlocks ++ " blocks)"))

/-- The reporter must be the recorded user, if one is recorded. -/
def checkReporter (reporter userAddress : String) : Except Err Unit :=
  ensure (userAddress == "" || userAddress == reporter)
    (.errorf ("FraudProof: reporter " ++ reporter ++ " is not the task user (" ++
      userAddress ++ ")"))

/-- The checks that depend on the footprint.  A task known only by its
reservation is exempt. -/
def checkFootprint (params : Params) (height : Int) (msg : MsgFraudProof) :
    Footprint → Except Err Unit
  | .settled st => do
      ensure (st.workerAddress == "" || st.workerAddress == msg.workerAddress)
        (.errorf ("FraudProof: msg.WorkerAddress " ++ msg.workerAddress ++
          " does not match settled task's worker " ++ st.workerAddress))
      checkWindow params height "settled_at" st.settledAt
      checkReporter msg.reporter st.userAddress
  | .pending apt => do
      checkWindow params height "submitted_at" apt.submittedAt
      checkReporter msg.reporter apt.userAddress
  | .reserved => .ok ()

section
variable (ctx : Ctx) (s : State) (msg : MsgFraudProof)

/-- The worker signed two different hashes for the same task. -/
def checkContradiction (workerAddr : Addr) : Except Err Unit :=
  match s.world.getWorkerPubkey workerAddr with
  | none =>
      .error (.errorf ("FraudProof: worker pubkey not found on-chain for " ++ msg.workerAddress))
  | some pubkeyStr =>
      match decodeWorkerPubkey env pubkeyStr with
      | none =>
          .error (.errorf ("FraudProof: worker pubkey for " ++ msg.workerAddress ++
            " is not a valid 33-byte secp256k1 key (raw/hex/base64)"))
      | some pubkey => do
          ensure (env.verifySignature pubkey
              (receiptSigPayload env msg.taskId msg.receiptResultHash) msg.workerReceiptSig)
            (.errorf "FraudProof: worker receipt signature verification failed")
          ensure (env.verifySignature pubkey
              (contentSigPayload env msg.taskId msg.receivedOutputHash) msg.workerContentSig)
            (.errorf "FraudProof: worker content signature verification failed")
          ensure (msg.receiptResultHash != msg.receivedOutputHash)
            (.errorf ("FraudProof: receipt_result_hash equals received_output_hash — " ++
              "both halves agree, no contradiction"))

/-- All checks, in the order of the source: the worker and the footprint. -/
def checkFraudProof : Except Err (Addr × Footprint) := do
  ensure (!s.hasFraudMark msg.taskId) (.of .fraudMarked)
  let workerAddr ← (env.accAddressFromBech32 msg.workerAddress).elim
    (.error (.errorf "invalid worker address")) .ok
  let fp ← (footprint s.ledger msg.taskId).elim
    (.error (.errorf ("FraudProof: taskId " ++ hexEncode msg.taskId ++
      " has no chain footprint (no SettledTask, no pending audit, no reservation)"))) .ok
  checkFootprint s.params ctx.height msg fp
  checkContradiction env s msg workerAddr
  return (workerAddr, fp)

/-! ## the penalties -/

/-- Where a clawback goes: to the recorded user, else to the reporter. -/
def refundAddr (st : SettledTaskID) (reporter : Option Addr) : Option Addr :=
  if st.userAddress = "" then reporter
  else (env.accAddressFromBech32 st.userAddress).or reporter

/-- The bank after the clawback; a refused send changes nothing. -/
def clawbackSend (b : Bank) (workerAddr : Addr) (refund : Option Addr) (c : Coin) : Bank :=
  match refund with
  | none => b
  | some dst => (env.sendCoins b workerAddr dst c).getD b

/-- Take the executor's share of the recorded fee back from the worker. -/
def clawback (st : SettledTaskID) (workerAddr : Addr) (reporter : Option Addr) : Exec State :=
  if st.fee.isPositive then do
    let executorAmount ← MathInt.share st.fee.amount s.params.executorFeeRatio 1000
    let coin ← Coin.new st.fee.denom executorAmount
    if coin.isPositive then
      return { s with world := { s.world with
        bank := clawbackSend env s.world.bank workerAddr (refundAddr env st reporter) coin } }
    else return s
  else .ok s

/-- A settled task becomes a fraud, and its executor's share is clawed back. -/
def revokeSettled (fp : Footprint) (workerAddr : Addr) (reporter : Option Addr) : Exec State :=
  match fp with
  | .settled st =>
      if st.status = .settled then
        clawback env (s.mapLedger (·.setSettledTask { st with status := .fraud })) st workerAddr
          reporter
      else .ok s
  | _ => .ok s

/-- Slash five percent, to the reporter when its address decodes, and
tombstone. -/
def punishWorker (w : World) (workerAddr : Addr) (reporter : Option Addr) : Exec World := do
  let w ← w.slashWorkerInternal env.toHost workerAddr 5 reporter
  return w.tombstoneWorker workerAddr

/-- `ProcessFraudProof`. -/
def processFraudProof : Exec (State × Except Err Unit) :=
  match checkFraudProof env ctx s msg with
  | .error e => .ok (s, .error e)
  | .ok (workerAddr, fp) => do
      let reporter := env.accAddressFromBech32 msg.reporter
      let s := s.mapLedger (·.setFraudMark msg.taskId)
      let s ← revokeSettled env s fp workerAddr reporter
      let w ← punishWorker env s.world workerAddr reporter
      return ({ s with world := w }, .ok ())

end

/-! ## what an accepted proof does -/

namespace Ledger

/-- Mark a task; a settled record becomes a fraud. -/
def markFraud (l : Ledger) (t : TaskId) : Ledger :=
  match l.getSettledTask t with
  | some st =>
      if st.status = .settled then
        (l.setFraudMark t).setSettledTask { st with status := .fraud }
      else l.setFraudMark t
  | none => l.setFraudMark t

end Ledger

/-- What a fraud proof can do to the ledger.  The settlement account pays
nothing; it may receive a refund. -/
inductive FraudStep (msg : MsgFraudProof) (l : Ledger) : Ledger → Int → Prop
  | accepted (unmarked : l.hasFraudMark msg.taskId = false)
      (known : (footprint l msg.taskId).isSome) (out : Int) (refund : out ≤ 0) :
      FraudStep msg l (l.markFraud msg.taskId) out

variable {env}

theorem checkContradiction_registered (h : checkContradiction env s msg workerAddr = .ok ()) :
    (s.world.workers.get workerAddr).isSome := by
  unfold checkContradiction World.getWorkerPubkey at h
  cases hw : s.world.workers.get workerAddr with
  | none => simp [hw] at h
  | some => rfl

/-- What the checks establish: an accepted proof is about a known, unmarked task. -/
theorem checkFraudProof_ok : OnValue (fun r => s.ledger.hasFraudMark msg.taskId = false ∧
    footprint s.ledger msg.taskId = some r.2 ∧
    env.accAddressFromBech32 msg.workerAddress = some r.1 ∧
    checkFootprint s.params ctx.height msg r.2 = .ok () ∧
    checkContradiction env s msg r.1 = .ok ()) (checkFraudProof env ctx s msg) :=
  .ensure fun hmark => .lookup fun _ hw => .lookup fun _ hfp => .after fun _ hbound =>
    .after fun _ hcontra => .ok ⟨(Bool.not_eq_true' _).mp hmark, hfp, hw, hbound, hcontra⟩

/-- A clawback takes nothing from the settlement account, unless that is the worker. -/
theorem clawback_moves {st : SettledTaskID}
    (hworker : s.Apart env → workerAddr ≠ env.settlementAccount) :
    OnValue (fun s' => ∃ out, out ≤ 0 ∧ State.Moves env s s' s.ledger out)
    (clawback env s st workerAddr reporter) := by
  have hsame : ∃ out, out ≤ 0 ∧ State.Moves env s s s.ledger out :=
    ⟨0, Int.le_refl 0, .refl s⟩
  refine .either (.after fun amount _ => .after fun coin hcoin => .either (.ok ?_) <|
    .ok hsame) <| .ok hsame
  obtain ⟨-, hnn, rfl⟩ := Coin.new_eq_ok.mp hcoin
  unfold clawbackSend
  split
  · exact hsame
  next dst _ =>
  cases hsend : env.sendCoins s.world.bank workerAddr dst ⟨st.fee.denom, amount⟩ with
  | none => exact hsame
  | some b =>
    have hb := Bank.balance_sendCoins hnn (Host.sendCoins_eq_some hsend)
      env.settlementAccount defaultDenom
    refine ⟨-(if env.settlementAccount = dst ∧ defaultDenom = st.fee.denom
      then amount else 0), ?_, rfl, rfl, fun _ => rfl, fun _ => rfl, fun hs => ?_⟩
    · split <;> omega
    · rw [if_neg (fun e => hworker hs e.1.symm)] at hb
      dsimp only at hb
      show (b.balance env.settlementAccount defaultDenom : Int) =
        s.world.bank.balance env.settlementAccount defaultDenom - _
      omega

theorem revokeSettled_moves {l : Ledger} {t : TaskId}
    (hworker : s.Apart env → workerAddr ≠ env.settlementAccount)
    (hfp : footprint l t = some fp) (hledger : s.ledger = l.setFraudMark t) :
    OnValue (fun s' => ∃ out, out ≤ 0 ∧ State.Moves env s s' (l.markFraud t) out)
    (revokeSettled env s fp workerAddr reporter) := by
  have hsame : State.Moves env s s (l.setFraudMark t) 0 := hledger ▸ State.Moves.refl s
  unfold footprint at hfp
  unfold Ledger.markFraud revokeSettled
  cases hst : l.getSettledTask t with
  | some st =>
    rw [hst] at hfp
    cases hfp
    dsimp only
    refine .ite (fun hsettled => ?_) fun hsettled => .ok ?_
    · rw [if_pos hsettled]
      refine (clawback_moves (s := s.mapLedger _) hworker).mono fun s' hs' => ?_
      obtain ⟨out, hout, hmove⟩ := hs'
      have hrevoked := hmove.after (hsame.map (·.setSettledTask { st with status := .fraud }))
      have hl : (s.mapLedger (·.setSettledTask { st with status := .fraud })).ledger =
          (l.setFraudMark t).setSettledTask { st with status := .fraud } :=
        congrArg (Ledger.setSettledTask · { st with status := .fraud }) hledger
      rw [hl] at hrevoked
      exact ⟨out, hout, hrevoked⟩
    · grind
  | none =>
    rw [hst] at hfp
    cases fp with
    | settled => grind
    | pending | reserved => exact .ok ⟨0, Int.le_refl 0, hsame⟩

/-- **A fraud proof that succeeds** is a `FraudStep` of the ledger. -/
theorem processFraudProof_cases :
    OnValue (fun r => ∀ u, r.2 = .ok u →
    ∃ l' out, FraudStep msg s.ledger l' out ∧ State.Moves env s r.1 l' out)
    (processFraudProof env ctx s msg) := by
  unfold processFraudProof
  split
  · exact .ok nofun
  next workerAddr fp hcheck =>
  obtain ⟨hmark, hfp, -, -, hcontra⟩ := checkFraudProof_ok.get hcheck
  have hregistered := checkContradiction_registered hcontra
  have hworker : s.Apart env → workerAddr ≠ env.settlementAccount := by
    rintro hapart rfl
    rw [hapart] at hregistered
    contradiction
  refine (revokeSettled_moves (s := s.mapLedger _) hworker hfp rfl).bind ?_
  rintro s₁ ⟨out, hout, hmove⟩
  refine OnValue.bind (Q := fun w => State.Quiet env s₁ { s₁ with world := w })
    (.after fun w₁ hslash =>
      .ok (State.Quiet.ofWorld ((World.frame_slashWorkerInternal.get hslash).trans
      (World.frame_tombstoneWorker w₁ workerAddr)))) fun w hquiet => .ok fun _ _ => ?_
  exact ⟨_, out, .accepted hmark (by rw [hfp]; rfl) out hout,
    (hmove.quiet hquiet).after ((State.Moves.refl s).map (·.setFraudMark msg.taskId))⟩

end FunaiChain.Settlement
