import FunaiChain.Settlement.FeeSplit

/-!
# FunaiChain.Settlement.Account

Deposits, withdrawals and reservations.  A reservation (`FreezeBalance`) adds
to the account's `FrozenBalance` and files the amount under the task id; the
row does not name the account, so `UnfreezeBalance` takes the account from
its caller.

`Ledger.release` is the effect of a release that does not panic:
`unfreezeBalance_eq` says that an unfreeze which returns is a release, and
`unfreezeBalance_returns` when it returns.  `FreezeBalance` and the row of a
reserve batch are described in the same way (`freezeBalance_eq`,
`reserveRow_eq`).
-/

namespace FunaiChain.Settlement

open Coin

variable {l l' : Ledger} {a creator userAddr : Addr} {t : TaskId} {amount c : Coin}
  {ia : InferenceAccount} {n : Int} {s : State}

/-! ## releasing a reservation -/

namespace Ledger

/-- Take `n` back from the frozen balance of an account, as far as it goes, and
drop the reservation of the task. -/
def releaseFrom (l : Ledger) (ia : InferenceAccount) (n : UInt64) (t : TaskId) : Ledger :=
  { l.setInferenceAccount
      { ia with frozenBalance :=
          ⟨defaultDenom, max (ia.frozenBalance.amount - MathInt.ofUInt64 n) 0⟩ } with
    frozenBalance := l.frozenBalance.erase t }

/-- Take a task's reservation back from an account, when both are there. -/
def release (l : Ledger) (userAddr : Addr) (t : TaskId) : Ledger :=
  match l.frozenBalance.get t, l.getInferenceAccount userAddr with
  | some n, some ia => l.releaseFrom ia n t
  | _, _ => l

theorem release_eq_self (h : l.frozenBalance.get t = none) : l.release a t = l := by
  rw [release, h]

theorem release_eq_releaseFrom {n : UInt64} (hn : l.frozenBalance.get t = some n)
    (hia : l.getInferenceAccount a = some ia) : l.release a t = l.releaseFrom ia n t := by
  rw [release, hn, hia]

section
variable (l a t)

/-- A release does nothing, or takes the reservation back. -/
theorem release_cases :
    (l.release a t = l ∧ (l.frozenBalance.get t = none ∨ l.getInferenceAccount a = none)) ∨
    ∃ n ia, l.frozenBalance.get t = some n ∧ l.getInferenceAccount a = some ia ∧
    l.release a t = l.releaseFrom ia n t := by
  cases hn : l.frozenBalance.get t with
  | none => exact .inl ⟨release_eq_self hn, .inl rfl⟩
  | some n =>
    cases hia : l.getInferenceAccount a with
    | none => exact .inl ⟨by rw [release, hn, hia], .inr rfl⟩
    | some ia => exact .inr ⟨n, ia, rfl, rfl, release_eq_releaseFrom hn hia⟩

/-- A release touches accounts and reservations only. -/
theorem release_frame : l.release a t = { l with
      inferenceAccounts := (l.release a t).inferenceAccounts
      frozenBalance := (l.release a t).frozenBalance } := by
  obtain ⟨h, -⟩ | ⟨n, ia, -, -, h⟩ := release_cases l a t
  · rw [h]
  · rw [h]
    rfl

@[simp] theorem settledTasks_release :
    (l.release a t).settledTasks = l.settledTasks := by rw [release_frame]

@[simp] theorem fraudMarks_release :
    (l.release a t).fraudMarks = l.fraudMarks := by rw [release_frame]

@[simp] theorem second_release : (l.release a t).second = l.second := by rw [release_frame]

@[simp] theorem third_release : (l.release a t).third = l.third := by rw [release_frame]

@[simp] theorem frozenTaskIndex_release :
    (l.release a t).frozenTaskIndex = l.frozenTaskIndex := by rw [release_frame]

@[simp] theorem log_release : (l.release a t).log = l.log := by rw [release_frame]

end

/-- The accounts of the released ledger are those of the old one, with the same
balances. -/
theorem account_of_release {b : Addr} {ia' : InferenceAccount}
    (h : (l.release a t).getInferenceAccount b = some ia') :
    ∃ ia, l.getInferenceAccount b = some ia ∧ ia'.balance = ia.balance := by
  obtain ⟨hr, -⟩ | ⟨n, ia, hn, hia, hr⟩ := release_cases l a t
  · exact ⟨ia', hr ▸ h, rfl⟩
  · rw [hr] at h
    replace h := (getInferenceAccount_set ..).symm.trans h
    split at h
    · next hb =>
      have hab : a = b := (address_of_get hia).symm.trans hb
      rw [← Option.some.inj h]
      exact ⟨ia, hab ▸ hia, rfl⟩
    · exact ⟨ia', h, rfl⟩

end Ledger

/-- What stays frozen after a release: never less than zero. -/
def frozenRest (held frozen : Coin) : Exec Coin := do
  if ← held.isGTE frozen then held.sub frozen else Coin.new defaultDenom 0

/-- `UnfreezeBalance`. -/
def unfreezeBalance (l : Ledger) (userAddr : Addr) (t : TaskId) : Exec (Ledger × Except Err Coin) :=
  match l.frozenBalance.get t with
  | none => .ok (l, .ok Coin.zero)
  | some n => do
      let frozen ← Coin.new defaultDenom (MathInt.ofUInt64 n)
      match l.getInferenceAccount userAddr with
      | none => return (l, .error (.errorf "inference account not found for unfreeze"))
      | some ia =>
          let rest ← frozenRest ia.frozenBalance frozen
          let l := l.setInferenceAccount { ia with frozenBalance := rest }
          return ({ l with frozenBalance := l.frozenBalance.erase t }, .ok frozen)

theorem validDenom_default : validDenom defaultDenom = true := by decide

theorem frozenRest_eq {rest : Coin} (h : frozenRest c ⟨defaultDenom, n⟩ = .ok rest) :
    c.denom = defaultDenom ∧ rest = ⟨defaultDenom, max (c.amount - n) 0⟩ := by
  obtain ⟨b, hb, h⟩ := bind_eq_ok.mp h
  obtain ⟨hdenom, rfl⟩ := isGTE_eq_ok.mp hb
  refine ⟨hdenom, ?_⟩
  simp only [decide_eq_true_eq] at h
  split at h
  · next hle =>
    obtain ⟨-, -, -, rfl⟩ := sub_eq_ok.mp h
    rw [hdenom, max_eq_left (by omega)]
  · next hlt =>
    obtain ⟨-, -, rfl⟩ := new_eq_ok.mp h
    rw [max_eq_right (by omega)]

theorem frozenRest_returns (hdenom : c.denom = defaultDenom) (hfits : MathInt.Fits (c.amount - n)) :
    Returns (frozenRest c ⟨defaultDenom, n⟩) := by
  refine Returns.bind ⟨_, isGTE_eq_ok.mpr ⟨hdenom, rfl⟩⟩ fun b hb => ?_
  obtain ⟨-, rfl⟩ := isGTE_eq_ok.mp hb
  simp only [decide_eq_true_eq]
  split
  · next hle => exact ⟨_, sub_eq_ok.mpr ⟨hdenom, hfits, hle, rfl⟩⟩
  · exact ⟨_, new_eq_ok.mpr ⟨validDenom_default, Int.le_refl 0, rfl⟩⟩

/-- **An unfreeze that returns is a release.** -/
theorem unfreezeBalance_eq {r : Except Err Coin} (h : unfreezeBalance l userAddr t = .ok (l', r)) :
    l' = l.release userAddr t := by
  refine OnValue.get (Q := fun r => r.1 = l.release userAddr t) ?_ h
  unfold unfreezeBalance Ledger.release
  cases hn : l.frozenBalance.get t with
  | none => exact .ok rfl
  | some n =>
    refine .after fun frozen hfrozen => ?_
    obtain ⟨-, -, rfl⟩ := new_eq_ok.mp hfrozen
    cases hia : l.getInferenceAccount userAddr with
    | none => exact .ok rfl
    | some ia =>
      refine .after fun rest hrest => .ok ?_
      obtain ⟨-, rfl⟩ := frozenRest_eq hrest
      rfl

/-- **An unfreeze returns** when the account it names holds its frozen balance
in the default denom, or there is nothing to release. -/
theorem unfreezeBalance_returns
    (h : ∀ n ia, l.frozenBalance.get t = some n → l.getInferenceAccount userAddr = some ia →
    ia.frozenBalance.denom = defaultDenom ∧
    MathInt.Fits (ia.frozenBalance.amount - MathInt.ofUInt64 n)) :
    Returns (unfreezeBalance l userAddr t) := by
  unfold unfreezeBalance
  split
  · exact returns_ok _
  · next n hn =>
    refine Returns.bind ⟨_, new_eq_ok.mpr
      ⟨validDenom_default, MathInt.ofUInt64_nonneg n, rfl⟩⟩ fun frozen hfrozen => ?_
    obtain ⟨-, -, rfl⟩ := new_eq_ok.mp hfrozen
    split
    · exact returns_ok _
    · next ia hia =>
      obtain ⟨hdenom, hfits⟩ := h n ia hn hia
      exact (frozenRest_returns hdenom hfits).bind fun rest _ => returns_ok _

/-! ## making a reservation -/

namespace InferenceAccount

/-- The frozen amount that `AvailableBalance` and `FreezeBalance` count: an
invalid coin counts as none. -/
def frozenAmount (ia : InferenceAccount) : Int :=
  if ia.frozenBalance.isValid then ia.frozenBalance.amount else 0

theorem frozenAmount_nonneg (ia : InferenceAccount) : 0 ≤ ia.frozenAmount := by
  unfold frozenAmount
  split
  · next h =>
    simp only [isValid, Bool.and_eq_true, decide_eq_true_eq] at h
    exact h.2
  · exact Int.le_refl 0

/-- A positive amount within the available balance is within the balance next
to what is frozen. -/
theorem availableBalance_covers {x : Int} (hx : 0 < x) (h : ia.availableBalance = .ok c)
    (hle : x ≤ c.amount) : x + ia.frozenAmount ≤ ia.balance.amount := by
  unfold availableBalance at h
  unfold frozenAmount
  split at h
  · next hfrozen =>
    have hc : ia.balance = c := Except.ok.inj h
    split
    · next hvalid =>
      simp only [hvalid, isZero, Bool.not_true, Bool.or_false, decide_eq_true_eq] at hfrozen
      rw [hc, hfrozen]
      omega
    · rw [hc]
      omega
  · next hfrozen =>
    obtain ⟨b, hb, h⟩ := bind_eq_ok.mp h
    obtain ⟨-, rfl⟩ := isLT_eq_ok.mp hb
    split at h
    · obtain ⟨-, -, rfl⟩ := new_eq_ok.mp h
      exact absurd hle (by simpa using hx)
    · obtain ⟨-, -, hle', rfl⟩ := sub_eq_ok.mp h
      have hvalid : ia.frozenBalance.isValid = true := by grind
      rw [if_pos hvalid]
      dsimp only at hle
      omega

end InferenceAccount

/-- The new frozen balance of an account. -/
def frozenSum (held amount : Coin) : Exec Coin :=
  if !held.isValid || held.isZero then .ok amount else held.add amount

/-- `FreezeBalance`. -/
def freezeBalance (l : Ledger) (userAddr : Addr) (t : TaskId) (amount : Coin) :
    Exec (Except Err Ledger) :=
  match l.getInferenceAccount userAddr with
  | none => .ok (.error (.errorf "inference account not found"))
  | some ia => do
      let available ← ia.availableBalance
      if ← available.isLT amount then
        return .error (.errorf ("insufficient available balance: " ++
          toString available.amount ++ available.denom ++ " < " ++
          toString amount.amount ++ amount.denom))
      else
        let frozen ← frozenSum ia.frozenBalance amount
        let l := l.setInferenceAccount { ia with frozenBalance := frozen }
        let n ← MathInt.uint64 amount.amount
        return .ok { l with frozenBalance := l.frozenBalance.put t n }

namespace Ledger

/-- Freeze an amount of an account for a task. -/
def freeze (l : Ledger) (ia : InferenceAccount) (t : TaskId) (n : UInt64) : Ledger :=
  { l.setInferenceAccount
      { ia with frozenBalance := ⟨defaultDenom, ia.frozenAmount + MathInt.ofUInt64 n⟩ } with
    frozenBalance := l.frozenBalance.put t n }

end Ledger

theorem frozenSum_eq (h : frozenSum ia.frozenBalance ⟨defaultDenom, n⟩ = .ok c) :
    c = ⟨defaultDenom, ia.frozenAmount + n⟩ := by
  unfold frozenSum at h
  unfold InferenceAccount.frozenAmount
  split at h
  · next hfrozen =>
    rw [← Except.ok.inj h]
    split
    · next hvalid =>
      simp only [hvalid, isZero, Bool.not_true, Bool.false_or, decide_eq_true_eq] at hfrozen
      rw [hfrozen, Int.zero_add]
    · rw [Int.zero_add]
  · next hfrozen =>
    obtain ⟨hdenom, -, rfl⟩ := add_eq_ok.mp h
    have hvalid : ia.frozenBalance.isValid = true := by grind
    rw [if_pos hvalid, hdenom]

/-- **A freeze that succeeds** stays within the balance next to what was
already frozen. -/
theorem freezeBalance_eq (hdenom : amount.denom = defaultDenom) (hpos : 0 < amount.amount) :
    OnValue (OnValue fun l' => ∃ ia n, l.getInferenceAccount userAddr = some ia ∧
    MathInt.ofUInt64 n = amount.amount ∧
    amount.amount + ia.frozenAmount ≤ ia.balance.amount ∧ l' = l.freeze ia t n)
    (freezeBalance l userAddr t amount) := by
  obtain ⟨denom, x⟩ := amount
  subst hdenom
  unfold freezeBalance
  split
  · exact .ok .error
  next ia hia =>
  refine .after fun available havailable => .after fun b hb => .ite (fun _ => .ok .error) fun hlt =>
    .after fun frozen hfrozen => .after fun n hn => .ok (.ok ?_)
  obtain ⟨-, rfl⟩ := isLT_eq_ok.mp hb
  obtain ⟨-, -, hn⟩ := MathInt.uint64_eq_ok.mp hn
  obtain rfl := frozenSum_eq hfrozen
  simp only [decide_eq_true_eq, not_lt] at hlt
  refine ⟨ia, n, hia, hn, InferenceAccount.availableBalance_covers hpos havailable hlt, ?_⟩
  rw [Ledger.freeze, hn]
  rfl

/-! ## batches of reservations -/

section Reserve
variable (env : Env)

/-- One row of a reserve batch; `none` counts as rejected.  An accepted row is
noted in the ghost log with the expiry it was sent with. -/
def reserveRow (height : Int) (l : Ledger) (entry : ReserveEntry) : Exec (Option Ledger) :=
  if !entry.maxFee.isValid || entry.maxFee.isZero then .ok none
  else if entry.maxFee.denom ≠ defaultDenom then .ok none
  else if entry.taskId.isEmpty then .ok none
  else if 0 < entry.expireBlock ∧ entry.expireBlock < height then .ok none
  else if (l.getSettledTask entry.taskId).isSome then .ok none
  else if l.frozenBalance.has entry.taskId then .ok none
  else
    match env.accAddressFromBech32 entry.userAddress with
    | none => .ok none
    | some userAddr =>
        if (l.getInferenceAccount userAddr).isNone then .ok none
        else do
          match ← freezeBalance l userAddr entry.taskId entry.maxFee with
          | .error _ => return none
          | .ok l =>
              return some (l.note height
                (.reserved entry.taskId userAddr entry.maxFee.amount entry.expireBlock))

/-- The ledger and the counts of accepted and rejected rows. -/
structure ReserveAcc where
  ledger : Ledger
  accepted : UInt32
  rejected : UInt32

def reserveStep (height : Int) (acc : ReserveAcc) (entry : ReserveEntry) : Exec ReserveAcc := do
  match ← reserveRow env height acc.ledger entry with
  | none => return { acc with rejected := acc.rejected + 1 }
  | some l => return { acc with ledger := l, accepted := acc.accepted + 1 }

/-- `ProcessBatchReserve`.  The rejections that jail the proposer return an
error as well, so the transaction that carries them is rolled back. -/
def processBatchReserve (ctx : Ctx) (s : State) (msg : MsgBatchReserve) :
    Exec (State × Except Err (UInt32 × UInt32)) :=
  match verifyProposerSigOnRoot env s msg.proposer msg.merkleRoot msg.proposerSig with
  | .error _ =>
      .ok (s, .error (.wrap .invalidSettlement "proposer signature verification failed"))
  | .ok () =>
      if !verifyReserveMerkleRoot env msg.merkleRoot msg.entries then do
        let s ← s.jailWorkerAt env ctx msg.proposer
        return (s, .error (.wrap .invalidSettlement
          "reserve merkle root verification failed, proposer jailed"))
      else if msg.resultCount ≠ lenUInt32 msg.entries then do
        let s ← s.jailWorkerAt env ctx msg.proposer
        return (s, .error (.wrap .invalidSettlement
          ("reserve result_count mismatch: declared " ++ toString msg.resultCount ++
            ", actual " ++ toString msg.entries.length ++ ", proposer jailed")))
      else do
        let acc ← msg.entries.foldlM (reserveStep env ctx.height) ⟨s.ledger, 0, 0⟩
        return ({ s with ledger := acc.ledger }, .ok (acc.accepted, acc.rejected))

/-- What the chain knows when it accepts a reservation. -/
structure Reservable (height : Int) (l : Ledger) (entry : ReserveEntry) (userAddr : Addr)
    (ia : InferenceAccount) (n : UInt64) : Prop where
  user : env.accAddressFromBech32 entry.userAddress = some userAddr
  account : l.getInferenceAccount userAddr = some ia
  amount : MathInt.ofUInt64 n = entry.maxFee.amount
  positive : 0 < MathInt.ofUInt64 n
  covered : MathInt.ofUInt64 n + ia.frozenAmount ≤ ia.balance.amount
  unexpired : ¬ (0 < entry.expireBlock ∧ entry.expireBlock < height)
  unsettled : l.getSettledTask entry.taskId = none
  unreserved : l.frozenBalance.get entry.taskId = none

variable {env}

/-- **An accepted row** freezes the amount it names. -/
theorem reserveRow_eq {height : Int} {entry : ReserveEntry} :
    OnValue (fun o => ∀ l' ∈ o, ∃ userAddr ia n, Reservable env height l entry userAddr ia n ∧
    l' = (l.freeze ia entry.taskId n).note height
    (.reserved entry.taskId userAddr (MathInt.ofUInt64 n) entry.expireBlock))
    (reserveRow env height l entry) := by
  refine .ite (fun _ => .none) fun hvalid => .ite (fun _ => .none) fun hdenom =>
    .either .none <| .ite (fun _ => .none) fun hexpire =>
    .ite (fun _ => .none) fun hsettled => .ite (fun _ => .none) fun hfrozen => ?_
  split
  · exact .none
  next userAddr huser =>
  have hpos : 0 < entry.maxFee.amount := by
    simp only [isValid, isZero, Bool.or_eq_true, Bool.not_eq_true',
      Bool.and_eq_false_iff, decide_eq_false_iff_not, decide_eq_true_eq, not_or] at hvalid
    omega
  refine .either .none <| (freezeBalance_eq (not_not.mp hdenom) hpos).bind_result
    (fun _ => .none) ?_
  rintro l' ⟨ia, n, hia, hn, hcover, rfl⟩
  refine .some ⟨userAddr, ia, n, ⟨huser, hia, hn, by omega, by omega, hexpire,
    by simpa using hsettled, by simpa [Table.has] using hfrozen⟩, ?_⟩
  rw [← hn]

end Reserve

/-! ## deposits and withdrawals -/

section Transfer
variable (env : Env)

/-- `ProcessDeposit`. -/
def processDeposit (s : State) (creator : Addr) (amount : Coin) : Exec (State × Except Err Unit) :=
  if amount.denom ≠ defaultDenom then
    .ok (s, .error (.wrap .wrongDenom ("got " ++ amount.denom)))
  else do
    let coins ← amount.coins
    match env.sendCoins s.world.bank creator env.settlementAccount coins with
    | none => return (s, .error (.of .insufficientBalance))
    | some bank =>
        let s := { s with world := { s.world with bank := bank } }
        match s.getInferenceAccount creator with
        | none =>
            return (s.mapLedger (·.setInferenceAccount ⟨creator, amount, Coin.zero⟩), .ok ())
        | some ia =>
            let balance ← ia.balance.add amount
            return (s.mapLedger (·.setInferenceAccount { ia with balance := balance }), .ok ())

/-- `ProcessWithdraw`: the balance is lowered before the send, whose failure
is the error of the whole call. -/
def processWithdraw (s : State) (creator : Addr) (amount : Coin) : Exec (State × Except Err Unit) :=
  if amount.denom ≠ defaultDenom then
    .ok (s, .error (.wrap .wrongDenom ("got " ++ amount.denom)))
  else
    match s.getInferenceAccount creator with
    | none => .ok (s, .error (.of .accountNotFound))
    | some ia => do
        let available ← ia.availableBalance
        if ← available.isLT amount then
          return (s, .error (.of .insufficientBalance))
        else
          let balance ← ia.balance.sub amount
          let s := s.mapLedger (·.setInferenceAccount { ia with balance := balance })
          let coins ← amount.coins
          match s.payFromModule env creator coins with
          | none => return (s, .error (.errorf "send failed"))
          | some s => return (s, .ok ())

variable {env}

namespace Ledger

/-- Add to a balance, opening the account if there is none. -/
def credit (l : Ledger) (a : Addr) (x : Int) : Ledger :=
  match l.getInferenceAccount a with
  | none => l.setInferenceAccount ⟨a, ⟨defaultDenom, x⟩, Coin.zero⟩
  | some ia =>
      l.setInferenceAccount { ia with balance := ⟨ia.balance.denom, ia.balance.amount + x⟩ }

/-- Take from the balance of an account. -/
def debit (l : Ledger) (ia : InferenceAccount) (x : Int) : Ledger :=
  l.setInferenceAccount { ia with balance := ⟨ia.balance.denom, ia.balance.amount - x⟩ }

end Ledger

/-- **A deposit** credits the account with what it moved into the module, or with
nothing behind it when the module deposits its own coins. -/
theorem processDeposit_moves : OnValue (fun r => ∀ u, r.2 = .ok u → 0 ≤ amount.amount ∧
    ∃ x, (creator ≠ env.settlementAccount → x = -amount.amount) ∧
    State.Moves env s r.1 (s.ledger.credit creator amount.amount) x)
    (processDeposit env s creator amount) := by
  obtain ⟨denom, x⟩ := amount
  refine .ite (fun _ => .ok nofun) fun hdenom => .after fun coins hcoins => ?_
  obtain rfl : denom = defaultDenom := not_not.mp hdenom
  obtain ⟨-, hnn, rfl⟩ := new_eq_ok.mp hcoins
  split
  · exact .ok nofun
  next bank hsend =>
  have hbank := Bank.balance_sendCoins hnn (Host.sendCoins_eq_some hsend)
    env.settlementAccount defaultDenom
  rw [if_pos (⟨rfl, rfl⟩ : _ ∧ _)] at hbank
  dsimp only at hbank
  obtain ⟨y, hy, hmove⟩ : ∃ y, (creator ≠ env.settlementAccount → y = -x) ∧ State.Moves env s
      { s with world := { s.world with bank := bank } } s.ledger y := by
    refine ⟨s.moduleBalance env - bank.balance env.settlementAccount defaultDenom, fun hne => ?_,
      rfl, rfl, fun _ => rfl, fun _ => rfl, fun _ => ?_⟩
    · rw [if_neg fun e => hne e.1.symm] at hbank
      rw [State.moduleBalance]
      omega
    · simp only [State.moduleBalance]
      omega
  unfold Ledger.credit
  dsimp only [State.getInferenceAccount]
  split
  · exact .ok fun _ _ => ⟨hnn, y, hy, hmove.map fun l =>
      l.setInferenceAccount ⟨creator, ⟨defaultDenom, x⟩, zero⟩⟩
  · next ia hia =>
    refine .after fun balance hadd => .ok fun _ _ => ⟨hnn, y, hy, ?_⟩
    obtain ⟨-, -, rfl⟩ := add_eq_ok.mp hadd
    exact hmove.map fun l => l.setInferenceAccount
      { ia with balance := ⟨ia.balance.denom, ia.balance.amount + x⟩ }

/-- **A withdrawal** debits the account with what it moved out of the module,
and only what is not frozen. -/
theorem processWithdraw_moves (hpos : 0 < amount.amount) :
    OnValue (fun r => ∀ u, r.2 = .ok u → ∃ ia, s.ledger.getInferenceAccount creator = some ia ∧
    amount.amount + ia.frozenAmount ≤ ia.balance.amount ∧
    State.Moves env s r.1 (s.ledger.debit ia amount.amount) amount.amount)
    (processWithdraw env s creator amount) := by
  obtain ⟨denom, x⟩ := amount
  refine .ite (fun _ => .ok nofun) fun hdenom => ?_
  obtain rfl : denom = defaultDenom := not_not.mp hdenom
  split
  · exact .ok nofun
  next ia hia =>
  refine .after fun available havailable => .after fun b hb => .ite (fun _ => .ok nofun)
    fun hlt => .after fun balance hsub => .after fun coins hcoins => ?_
  obtain ⟨-, rfl⟩ := isLT_eq_ok.mp hb
  simp only [decide_eq_true_eq, not_lt] at hlt
  obtain ⟨-, -, -, rfl⟩ := sub_eq_ok.mp hsub
  obtain ⟨-, hnn, rfl⟩ := new_eq_ok.mp hcoins
  split
  · exact .ok nofun
  next s₁ hpay =>
  have hstart : State.Moves env s s s.ledger 0 := .refl s
  have hmove := (hstart.map fun l => l.debit ia x).pays (State.pays_payFromModule rfl hnn hpay)
  rw [Int.zero_add] at hmove
  have hcover := InferenceAccount.availableBalance_covers hpos havailable hlt
  exact .ok fun _ _ => ⟨ia, hia, hcover, hmove⟩

end Transfer

end FunaiChain.Settlement
