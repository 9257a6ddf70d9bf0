import FunaiChain.Settlement.Devnet

/-!
# FunaiChain.Settlement.Reservations

Whom a reservation belongs to.  The row under `FrozenBalanceKey` holds an
amount and no owner; here the owner is read off the log (`TaskView.owner`),
and the frozen balance of an account is compared with what is reserved for it
(`Ledger.reservedFor`).

The two agree in every run whose batches name the right users
(`frozen_accounting`).  A release takes the account from the settlement entry
and never goes below zero, so an entry that names another user drops the
reservation of one account and the frozen balance of another
(`frozen_differs`).
-/

namespace FunaiChain.Settlement

open Ledger TaskView MathInt

variable {env : Env} {height : Int} {params : Params} {fees : Int → Int}
variable {l l' : Ledger} {ia : InferenceAccount} {t : TaskId} {v v' : TaskView} {a u : Addr}
  {apt : SecondVerificationPendingTask} {p : Payment} {lab : Label} {n : UInt64}
  {row : ReserveEntry} {account : Addr → Bool}

/-! ## the newest reservation of a task -/

/-- A reservation as it was accepted. -/
structure Reservation where
  user : Addr
  amount : Int
  expireBlock : Int
  deriving DecidableEq, Repr

namespace Effect

def reservation : Effect → Option Reservation
  | .reserved _ user amount expireBlock => some ⟨user, amount, expireBlock⟩
  | .settled _ => none
  | .fundPaid _ _ => none

end Effect

namespace TaskView

/-- The newest reservation made for the task. -/
def reservation (v : TaskView) : Option Reservation := v.log.findSome? fun e => e.2.reservation

/-- The user the task was last reserved for. -/
def owner (v : TaskView) : Option Addr := v.reservation.map (·.user)

theorem reservation_congr (h : v'.log = v.log) : v'.reservation = v.reservation := by
  rw [reservation, h, reservation]

/-- A payment is no reservation. -/
theorem reservation_settled (h : v'.log = (height, .settled p) :: v.log) :
    v'.reservation = v.reservation := by
  rw [reservation, h, List.findSome?_cons]
  rfl

end TaskView

/-- What a step that makes no reservation leaves of the reservation. -/
structure TaskView.Holds (v v' : TaskView) : Prop where
  reservation : v'.reservation = v.reservation
  frozen : v'.frozen = none ∨ v'.frozen = v.frozen

namespace TaskView.Holds

theorem refl (v : TaskView) : Holds v v := ⟨rfl, .inr rfl⟩

theorem of_eq (hlog : v'.log = v.log) (hfrozen : v'.frozen = v.frozen) : Holds v v' :=
  ⟨reservation_congr hlog, .inr hfrozen⟩

theorem trans {v'' : TaskView} (h : Holds v v') (h' : Holds v' v'') : Holds v v'' := by
  refine ⟨h'.reservation.trans h.reservation, ?_⟩
  obtain hnone | hsame := h'.frozen
  · exact .inl hnone
  · rw [hsame]
    exact h.frozen

end TaskView.Holds

theorem TaskAudited.holds {settled : Bool} (h : TaskAudited env height account apt v v' settled) :
    v.Holds v' := by
  cases h with
  | marked | stuck => exact .refl v
  | refused => exact ⟨reservation_congr rfl, .inl rfl⟩
  | charged =>
    exact ⟨reservation_settled (by rfl), .inl rfl⟩

theorem TaskView.holds_releaseFor (apt : SecondVerificationPendingTask) (v : TaskView) :
    v.Holds (v.releaseFor env account apt) := by
  unfold releaseFor
  split
  · exact ⟨reservation_congr rfl, .inl rfl⟩
  · exact .refl v

theorem TaskJudged.holds {ar : SecondVerificationRecord}
    (h : TaskJudged env height params account ar apt v v') : v.Holds v' := by
  cases h with
  | escalated | overturned => exact .of_eq rfl rfl
  | tokenFraud step =>
    have hrecord : (v.releaseFor env account apt).Holds v' :=
      .trans (.of_eq (by rfl) (by rfl)) step.holds
    exact (holds_releaseFor apt v).trans hrecord
  | settled step => exact step.holds.trans (.of_eq rfl rfl)
  | retained step => exact step.holds

theorem TaskTurns.holds {third : Bool} (h : TaskTurns env height account third apt v v') :
    v.Holds v' := by
  induction h with
  | nil v => exact .refl v
  | cons turn _ ih =>
    refine TaskView.Holds.trans ?_ ih
    cases turn with
    | settled step | failed step => exact step.holds.trans (by cases third <;> exact .of_eq rfl rfl)

/-- **A step makes a reservation or holds on to it.** -/
theorem TaskStep.reservation_cases (h : TaskStep env height params account t v lab v') :
    v.Holds v' ∨ ∃ row u n, lab = .reserve row ∧ row.taskId = t ∧
      env.accAddressFromBech32 row.userAddress = some u ∧ v.record = none ∧ v.frozen = none ∧
      v' = { v with
        frozen := some n
        log := (height, .reserved t u (ofUInt64 n) row.expireBlock) :: v.log } := by
  cases h with
  | idle => exact .inl (.refl v)
  | reserved row task u n user unsettled unreserved => grind
  | parked | voted | fraud | cleanup => exact .inl (.of_eq rfl rfl)
  | refused | unpaid => exact .inl ⟨reservation_congr rfl, .inl rfl⟩
  | charged =>
    exact .inl ⟨reservation_settled (by rfl), .inl rfl⟩
  | judged _ _ _ _ _ step =>
    exact .inl (.trans (.of_eq (by rfl) (by rfl)) step.holds)
  | swept _ _ _ turns => exact .inl turns.holds

/-! ## what is reserved for an account -/

namespace Ledger

variable (l a)

/-- The frozen balance at an address; nothing without an account. -/
def frozenCoin : Coin :=
  match l.getInferenceAccount a with
  | some ia => ia.frozenBalance
  | none => Coin.zero

/-- What a frozen amount adds to what is reserved for an account. -/
def reservedPart (t : TaskId) (n : UInt64) : Int :=
  if (l.view t).owner = some a then MathInt.ofUInt64 n else 0

/-- The sum of the frozen amounts of the tasks reserved for an account. -/
def reservedFor : Int := l.frozenBalance.sum (l.reservedPart a)

theorem reservedPart_nonneg (t : TaskId) (n : UInt64) : 0 ≤ l.reservedPart a t n := by
  unfold reservedPart
  split
  · exact ofUInt64_nonneg n
  · exact Int.le_refl 0

variable {l a}

theorem frozenCoin_of_get (h : l.getInferenceAccount a = some ia) :
    l.frozenCoin a = ia.frozenBalance := by
  rw [frozenCoin, h]

theorem frozenCoin_congr (h : l'.inferenceAccounts = l.inferenceAccounts) (a : Addr) :
    l'.frozenCoin a = l.frozenCoin a := by
  simp [frozenCoin, getInferenceAccount, h]

theorem frozenCoin_set (l : Ledger) (ia : InferenceAccount) (a : Addr) :
    (l.setInferenceAccount ia).frozenCoin a =
      if ia.address = a then ia.frozenBalance else l.frozenCoin a := by
  unfold frozenCoin
  rw [getInferenceAccount_set]
  by_cases h : ia.address = a
  · rw [if_pos h, if_pos h]
  · rw [if_neg h, if_neg h]

theorem frozenCoin_debit (h : l.getInferenceAccount a = some ia) (x : Int) (b : Addr) :
    (l.debit ia x).frozenCoin b = l.frozenCoin b := by
  rw [debit, frozenCoin_set]
  split
  · next hb =>
    have hab : a = b := (address_of_get h).symm.trans hb
    rw [← hab, frozenCoin_of_get h]
  · rfl

theorem frozenCoin_credit (l : Ledger) (a : Addr) (x : Int) (b : Addr) :
    (l.credit a x).frozenCoin b = l.frozenCoin b := by
  unfold credit
  split
  · next hnone =>
    rw [frozenCoin_set]
    split
    · next hab => rw [← hab, frozenCoin, hnone]
    · rfl
  · next ia hia =>
    rw [frozenCoin_set]
    split
    · next hb =>
      have hab : a = b := (address_of_get hia).symm.trans hb
      rw [← hab, frozenCoin_of_get hia]
    · rfl

theorem frozenCoin_releaseFrom (h : l.getInferenceAccount a = some ia) (n : UInt64) (t : TaskId)
    (b : Addr) : (l.releaseFrom ia n t).frozenCoin b =
      if a = b then ⟨defaultDenom, max ((l.frozenCoin a).amount - ofUInt64 n) 0⟩
      else l.frozenCoin b := by
  rw [frozenCoin_of_get h, ← address_of_get h]
  exact l.frozenCoin_set _ b

theorem frozenCoin_freeze (h : l.getInferenceAccount a = some ia) (t : TaskId) (n : UInt64)
    (b : Addr) : (l.freeze ia t n).frozenCoin b =
      if a = b then ⟨defaultDenom, ia.frozenAmount + ofUInt64 n⟩ else l.frozenCoin b := by
  rw [← address_of_get h]
  exact l.frozenCoin_set _ b

/-- The frozen balances are coins, and each is what is reserved for its
account. -/
structure Held (l : Ledger) : Prop where
  coin : ∀ a, l.frozenCoin a = Coin.zero ∨
    (l.frozenCoin a).denom = defaultDenom ∧ 0 ≤ (l.frozenCoin a).amount
  sum : ∀ a, (l.frozenCoin a).amount = l.reservedFor a

/-- The task holds no reservation, or one made for this user. -/
def Owed (l : Ledger) (u : Addr) (t : TaskId) : Prop :=
  l.frozenBalance.get t = none ∨ (l.view t).owner = some u

instance (l : Ledger) (u : Addr) (t : TaskId) : Decidable (l.Owed u t) :=
  inferInstanceAs (Decidable (_ ∨ _))

theorem Owed.of_holds (h : l.Owed u t) (hholds : (l.view t).Holds (l'.view t)) : l'.Owed u t := by
  obtain hnone | hsame := hholds.frozen
  · exact .inl hnone
  · obtain hnone | howner := h
    · exact .inl (Eq.trans hsame hnone)
    · right
      rw [owner, hholds.reservation]
      exact howner

theorem reservedPart_congr (h : (l'.view t).reservation = (l.view t).reservation) (a : Addr)
    (n : UInt64) : l'.reservedPart a t n = l.reservedPart a t n := by
  rw [reservedPart, owner, h]
  rfl

theorem Held.congr (h : l.Held) (hcoin : ∀ a, l'.frozenCoin a = l.frozenCoin a)
    (hfrozen : l'.frozenBalance = l.frozenBalance)
    (hreservation : ∀ t, (l'.view t).reservation = (l.view t).reservation) : l'.Held := by
  refine ⟨fun a => hcoin a ▸ h.coin a, fun a => ?_⟩
  rw [hcoin, h.sum, reservedFor, reservedFor, hfrozen]
  exact Table.sum_congr fun t n _ => (reservedPart_congr (hreservation t) a n).symm

/-- The frozen balance of an account covers each reservation made for it. -/
theorem Held.covers (h : l.Held) (hn : l.frozenBalance.get t = some n)
    (howner : (l.view t).owner = some u) : ofUInt64 n ≤ (l.frozenCoin u).amount := by
  have hle := Table.part_le_sum (t := l.frozenBalance) (l.reservedPart_nonneg u) t
  simp only [Table.part, hn, reservedPart, howner, if_true] at hle
  rw [h.sum]
  exact hle

/-- A release for the owner of the reservation. -/
theorem Held.release (h : l.Held) (howed : l.Owed u t) : (l.release u t).Held := by
  obtain ⟨hr, -⟩ | ⟨n, ia, hn, hia, hr⟩ := release_cases l u t
  · rw [hr]
    exact h
  have howner : (l.view t).owner = some u := howed.resolve_left (by simp [hn])
  have hpart : ∀ a, l.frozenBalance.part (l.reservedPart a) t =
      if u = a then ofUInt64 n else 0 := by
    intro a
    simp [Table.part, hn, reservedPart, howner]
  -- nothing is lost to the lower bound: the frozen balance covers the amount
  have hcovers := h.covers hn howner
  rw [hr]
  constructor
  · intro a
    rw [frozenCoin_releaseFrom hia]
    split
    · exact .inr ⟨rfl, le_max_right ..⟩
    · exact h.coin a
  · intro a
    have hsum : (l.releaseFrom ia n t).reservedFor a =
        l.reservedFor a - if u = a then ofUInt64 n else 0 := by
      rw [← hpart]
      exact Table.sum_erase ..
    rw [frozenCoin_releaseFrom hia, hsum, ← h.sum]
    split
    · grind
    · rw [Int.sub_zero]

theorem frozenAmount_of_coin (h : ia.frozenBalance = Coin.zero ∨
    ia.frozenBalance.denom = defaultDenom ∧ 0 ≤ ia.frozenBalance.amount) :
    ia.frozenAmount = ia.frozenBalance.amount := by
  unfold InferenceAccount.frozenAmount
  obtain hzero | ⟨hdenom, hnn⟩ := h
  · rw [hzero]
    rfl
  · rw [if_pos]
    simp [Coin.isValid, hdenom, validDenom_default, hnn]

/-- An accepted row of a reserve batch. -/
theorem Held.reserve (h : l.Held) (res : Reservable env height l row u ia n) :
    ((l.freeze ia row.taskId n).note height
    (.reserved row.taskId u (ofUInt64 n) row.expireBlock)).Held := by
  generalize hl' : (l.freeze ia row.taskId n).note height
    (.reserved row.taskId u (ofUInt64 n) row.expireBlock) = l'
  have hcoin : ∀ a, l'.frozenCoin a = if u = a then
      ⟨defaultDenom, (l.frozenCoin u).amount + ofUInt64 n⟩ else l.frozenCoin a := by
    intro a
    have hia := h.coin u
    rw [frozenCoin_of_get res.account] at hia ⊢
    rw [← frozenAmount_of_coin hia, ← hl']
    exact frozenCoin_freeze res.account row.taskId n a
  have hview : ∀ t, l'.view t = if row.taskId = t then
      { l.view t with
        frozen := some n
        log := (height, .reserved row.taskId u (ofUInt64 n) row.expireBlock) ::
          l.history t }
      else l.view t := by
    intro t
    rw [← hl', view_note, view_freeze]
    simp only [Effect.task, Option.some.injEq]
    split <;> rfl
  have hsum : ∀ a, l'.reservedFor a =
      l.reservedFor a + if u = a then ofUInt64 n else 0 := by
    intro a
    have hput : l'.reservedFor a =
        l.frozenBalance.sum (l'.reservedPart a) -
          l.frozenBalance.part (l'.reservedPart a) row.taskId
          + l'.reservedPart a row.taskId n := by
      rw [← hl']
      exact Table.sum_set l.frozenBalance _ row.taskId n trivial
    have hpart : l.frozenBalance.part (l'.reservedPart a) row.taskId = 0 := by
      rw [Table.part, res.unreserved]
    have hothers : l.frozenBalance.sum (l'.reservedPart a) = l.reservedFor a := by
      refine Table.sum_congr fun t m hm => ?_
      have hne : row.taskId ≠ t := by
        rintro rfl
        simp [res.unreserved] at hm
      rw [reservedPart, hview, if_neg hne]
      rfl
    have hnew : l'.reservedPart a row.taskId n = if u = a then ofUInt64 n else 0 := by
      rw [reservedPart, hview, if_pos rfl]
      simp [owner, reservation, Effect.reservation]
    rw [hput, hpart, hothers, hnew, Int.sub_zero]
  constructor
  · intro a
    rw [hcoin]
    split
    · have hnn : 0 ≤ (l.frozenCoin u).amount := by
        rw [h.sum]
        exact Table.sum_nonneg (l.reservedPart_nonneg u)
      exact .inr ⟨rfl, Int.add_nonneg hnn (ofUInt64_nonneg n)⟩
    · exact h.coin a
  · intro a
    rw [hcoin, hsum, ← h.sum]
    split
    · next ha => rw [← ha]
    · rw [Int.add_zero]

end Ledger

/-! ## steps hold the frozen balances -/

theorem Ledger.reservation_settled (h : l'.log = (height, .settled p) :: l.log) (t : TaskId) :
    (l'.view t).reservation = (l.view t).reservation := by
  have hhistory : l'.history t = if p.task = t then (height, .settled p) :: l.history t
      else l.history t := by
    simp [history, h, List.filter_cons, Effect.task]
  by_cases ht : p.task = t
  · rw [if_pos ht] at hhistory
    exact TaskView.reservation_settled hhistory
  · rw [if_neg ht] at hhistory
    exact reservation_congr hhistory

theorem Ledger.reservation_congr (h : l'.log = l.log) (t : TaskId) :
    (l'.view t).reservation = (l.view t).reservation :=
  TaskView.reservation_congr (by simp [view, history, h])

section Path
variable {Fee : Int → Prop} {Rel : Addr → TaskId → Prop} {x : Int}

/-- A move of money holds on to reservations or drops them. -/
theorem MoneyStep.holds (h : MoneyStep height params Fee Rel l l' x) (t : TaskId) :
    (l.view t).Holds (l'.view t) := by
  cases h with
  | idle money =>
    refine ⟨reservation_congr (congrArg MoneyView.log money) t, .inr ?_⟩
    exact congrArg (·.frozenBalance.get t) money
  | release =>
    rw [view_release]
    split
    · exact ⟨reservation_congr rfl, .inl rfl⟩
    · exact .refl _
  | charge _ p _ _ _ _ _ money =>
    have hlog : l'.log = (height, .settled p) :: l.log := congrArg MoneyView.log money
    exact ⟨reservation_settled hlog t, .inr (congrArg (·.frozenBalance.get t) money)⟩

theorem MoneyPath.holds (h : MoneyPath height params Fee Rel l l' x) (t : TaskId) :
    (l.view t).Holds (l'.view t) := by
  induction h with
  | refl => exact .refl _
  | tail _ step ih => exact ih.trans (step.holds t)

theorem MoneyStep.held (h : MoneyStep height params Fee Rel l l' x)
    (hrel : ∀ u t, Rel u t → l.Owed u t) (hl : l.Held) : l'.Held := by
  cases h with
  | idle money =>
    exact hl.congr (frozenCoin_congr (accounts_of_money money))
      (congrArg MoneyView.frozenBalance money)
      (reservation_congr (congrArg MoneyView.log money))
  | release a t rel => exact hl.release (hrel a t rel)
  | charge _ p _ _ _ account _ money =>
    refine hl.congr (fun a => ?_) (congrArg MoneyView.frozenBalance money)
      (reservation_settled (congrArg MoneyView.log money))
    exact (frozenCoin_congr (accounts_of_money money) a).trans
      (frozenCoin_debit account p.paid a)

/-- A path whose releases are owed at its start keeps the frozen balances. -/
theorem MoneyPath.held (h : MoneyPath height params Fee l.Owed l l' x) (hl : l.Held) : l'.Held := by
  induction h with
  | refl => exact hl
  | tail before step ih => exact step.held (fun u t howed => howed.of_holds (before.holds t)) ih

theorem AccountStep.held (h : AccountStep env height params fees Fee l.Owed l lab l' x)
    (hl : l.Held) : l'.Held := by
  cases h with
  | deposit a x =>
    refine hl.congr (l.frozenCoin_credit a x) ?_ fun t => by rw [view_credit]
    unfold credit
    split <;> rfl
  | withdraw _ _ _ _ account =>
    exact hl.congr (frozenCoin_debit account x) rfl (reservation_congr rfl)
  | reserve _ _ _ _ res => exact hl.reserve res
  | path _ path => exact path.held hl
  | refund _ money =>
    exact hl.congr (frozenCoin_congr (accounts_of_money money))
      (congrArg MoneyView.frozenBalance money)
      (reservation_congr (congrArg MoneyView.log money))
  | fund _ step =>
    cases step with
    | idle => exact hl
    | paid =>
      refine hl.congr (fun a => rfl) rfl fun t => ?_
      rw [view_note, if_neg (by simp [Effect.task])]

end Path

/-! ## batches that name the right users -/

/-- A row of a reserve batch does not touch the queues. -/
theorem TaskStep.pending_of_reserve (h : TaskStep env height params account t v (.reserve row) v')
    (third : Bool) : v'.pending third = v.pending third := by
  cases h with
  | idle => rfl
  | reserved => cases third <;> rfl

theorem TaskStep.holds_of_entry {e : SettlementEntry}
    (h : TaskStep env height params account t v (.entry e) v') : v.Holds v' := by
  obtain h | ⟨row, u, n, hlab, -⟩ := h.reservation_cases
  · exact h
  · simp at hlab

namespace Ledger

/-- The entries of a batch name the owners of the reservations they release,
and the rows of a batch the users of the tasks under audit. -/
@[mk_iff]
structure NamesOwners (env : Env) (l : Ledger) (ev : Event) : Prop where
  entry : ∀ e ∈ ev.entries, ∀ u ∈ env.accAddressFromBech32 e.userAddress, l.Owed u e.taskId
  row : ∀ row ∈ ev.rows, ∀ third, ∀ apt ∈ l.pendingAt third row.taskId,
    env.accAddressFromBech32 apt.userAddress = env.accAddressFromBech32 row.userAddress

instance (env : Env) (l : Ledger) (ev : Event) : Decidable (l.NamesOwners env ev) :=
  decidable_of_iff' _ (namesOwners_iff ..)

/-- Frozen balances are held, and a reservation of a task under audit is one of
the user it will be released for. -/
structure Reserved (env : Env) (l : Ledger) : Prop extends Held l where
  pending : ∀ third t apt, l.pendingAt third t = some apt →
    ∀ u, env.accAddressFromBech32 apt.userAddress = some u → l.Owed u t

end Ledger

section Step
variable {ev : Event} {ctx : Ctx} {x c : Int}

section
variable (h : LedgerStep env height params fees l lab l' x c) (hlab : lab ∈ ev.script env ctx)
include h hlab

/-- Right names stay right while the batch is processed. -/
theorem LedgerStep.namesOwners (hl : l.NamesOwners env ev) : l'.NamesOwners env ev := by
  constructor
  · intro e he u hu
    obtain ⟨e', -, rfl⟩ := Event.entry_of_mem he hlab
    exact (hl.entry e he u hu).of_holds (h.task e.taskId).holds_of_entry
  · intro row hrow third apt hapt
    obtain ⟨row', -, rfl⟩ := Event.reserve_of_mem hrow hlab
    have hsame := (h.task row.taskId).pending_of_reserve third
    rw [pending_view, pending_view] at hsame
    exact hl.row row hrow third apt (hsame ▸ hapt)

theorem LedgerStep.reserved (hnames : l.NamesOwners env ev) (hl : l.Reserved env) :
    l'.Reserved env where
  toHeld := by
    have hstep : AccountStep env height params fees (fun _ => True) l.Owed l lab l' x := by
      refine h.account ?_ ?_
      · rintro e rfl u w adm
        exact ⟨hnames.entry e (Event.issues hlab) u adm.user, fun _ _ => trivial⟩
      · intro third t apt hapt
        refine ⟨fun _ _ _ => trivial, fun u hu => ?_⟩
        rw [(pending_of_get hapt).1]
        exact hl.pending third t apt hapt u hu
    exact hstep.held hl.toHeld
  pending := by
    intro third t apt hapt u hu
    rw [← pending_view] at hapt
    obtain hholds | ⟨row, u', n, rfl, rfl, huser, -, -, hview⟩ := (h.task t).reservation_cases
    · refine Ledger.Owed.of_holds ?_ hholds
      obtain hold | ⟨e, u', w, rfl, rfl, is_open, -, rfl⟩ | ⟨apt₀, hold, -, rfl⟩ :=
        (h.task t).pending_cases hapt
      · exact hl.pending third t apt (pending_view .. ▸ hold) u hu
      · exact hnames.entry e (Event.issues hlab) u hu
      · exact hl.pending false t apt₀ hold u hu
    · -- the row makes the reservation, for the user of the task under audit
      rw [(h.task row.taskId).pending_of_reserve, pending_view] at hapt
      have hnamed := hnames.row row (Event.issues hlab) third apt hapt
      right
      rw [hview]
      simpa [owner, reservation, Effect.reservation] using
        huser.symm.trans (hnamed.symm.trans hu)

end

theorem Steps.reserved (h : Steps env height params fees (ev.script env ctx) l l' x c)
    (hnames : l.NamesOwners env ev) (hl : l.Reserved env) : l'.Reserved env := by
  refine (h.invariant (I := fun l => l.NamesOwners env ev ∧ l.Reserved env) ⟨hnames, hl⟩ ?_).2
  intro lab hlab l l' x c hI hstep
  exact ⟨hstep.namesOwners hlab hI.1, hstep.reserved hlab hI.1 hI.2⟩

end Step

/-! ## frozen accounting -/

/-- Every batch names the owners of the reservations it is about. -/
def OwnedBatches (env : Env) (c : Chain) (ev : Event) : Prop := c.state.ledger.NamesOwners env ev

instance (env : Env) (c : Chain) (ev : Event) : Decidable (OwnedBatches env c ev) :=
  inferInstanceAs (Decidable (c.state.ledger.NamesOwners env ev))

theorem Ledger.Initial.reserved (h : l.Initial) : l.Reserved env := by
  have hcoin : ∀ a, l.frozenCoin a = Coin.zero := by
    intro a
    unfold frozenCoin
    split
    · next ia hia => exact (h.account a ia hia).2.2
    · rfl
  refine ⟨⟨fun a => .inl (hcoin a), fun a => ?_⟩, fun third t apt hapt =>
    (h.allPending (fun _ => False) third t apt hapt).elim⟩
  rw [hcoin, reservedFor, h.only]
  exact (Table.sum_empty _).symm

theorem Run.reserved {c₀ c : Chain} (hgenesis : AtGenesis env c₀)
    (run : Run env (OwnedBatches env) c₀ c) : c.state.ledger.Reserved env :=
  run.preserves hgenesis (I := fun c => c.state.ledger.Reserved env) hgenesis.initial.reserved
    fun _ _ _ _ _ _ hc hev hp => hp.steps.reserved hev hc

/-- **Frozen accounting** in a run whose batches name the owners of the
reservations they are about: the frozen balance of an account is the sum of
the frozen amounts of the tasks reserved for it. -/
theorem frozen_accounting {c₀ c : Chain} (hgenesis : AtGenesis env c₀)
    (run : Run env (OwnedBatches env) c₀ c) {a : Addr} {ia : InferenceAccount}
    (account : c.state.ledger.getInferenceAccount a = some ia) :
    ia.frozenBalance.amount = c.state.ledger.reservedFor a := by
  have hsum := (run.reserved hgenesis).sum a
  rwa [frozenCoin_of_get account] at hsum

/-- Two reservations, one of them released by a settlement. -/
theorem frozen_accounting_devnet :
    ∃ c ia, Run devEnv (OwnedBatches devEnv) (devnet .default [("user", 1000)]) c ∧
      c.state.ledger.getInferenceAccount (devAddr "user") = some ia ∧
      ia.frozenBalance.amount = 50 ∧ c.state.ledger.reservedFor (devAddr "user") = 50 := by
  refine exists_pair_and_of (Run.exists_of_exec
    [devReserve [devRow [255] "user" 100 500, devRow [254] "user" 50 500],
      devBatch [devEntry [255] "user" 100 500]] (by decide +kernel)) ?_
  intro c ia run account hfrozen
  exact frozen_accounting atGenesis_user run account ▸ hfrozen

/-- An entry that names the other user: 100 of one account stay frozen with no
reservation left, and the other account keeps a reservation of 50 with
nothing frozen. -/
theorem frozen_differs : AtGenesis devEnv (devnet .default [("user", 1000), ("other", 1000)]) ∧
      ∃ c, Run devEnv (fun _ _ => True) (devnet .default [("user", 1000), ("other", 1000)]) c ∧
        ((c.state.ledger.frozenCoin (devAddr "user")).amount = 100 ∧
          c.state.ledger.reservedFor (devAddr "user") = 0) ∧
        (c.state.ledger.frozenCoin (devAddr "other")).amount = 0 ∧
          c.state.ledger.reservedFor (devAddr "other") = 50 :=
  ⟨atGenesis_devnet Params.default_valid (by decide), Run.exists_of_exec
      [devReserve [devRow [255] "user" 100 500, devRow [254] "other" 50 500],
        devBatch [devEntry [255] "other" 100 500]]
      (by decide +kernel)⟩

end FunaiChain.Settlement
