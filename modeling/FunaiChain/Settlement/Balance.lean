import FunaiChain.Settlement.Refinement

/-!
# FunaiChain.Settlement.Balance

User balances and their total.  Every operation of the ledger says here what
it does to the balance at an address (`balanceOf_*`) and to the sum over all
accounts (`totalBalance_*`); a release and a reservation do nothing to them.

`Charge.within` bounds a charge by the balance it is taken from, and
`Charge.out_le` what is handed on by what was paid.
-/

namespace FunaiChain.Settlement

variable {l l' : Ledger} {a : Addr} {ia : InferenceAccount} {fee : Int}

/-! ## balances under the operations of the ledger -/

namespace Ledger

/-- The balance at an address; zero without an account. -/
def balanceOf (l : Ledger) (a : Addr) : Int :=
  match l.getInferenceAccount a with
  | some ia => ia.balance.amount
  | none => 0

/-- The sum of all balances. -/
def totalBalance (l : Ledger) : Int := l.inferenceAccounts.sum fun _ ia => ia.balance.amount

/-- No balance is negative. -/
def Funded (l : Ledger) : Prop := ∀ a, 0 ≤ l.balanceOf a

theorem balanceOf_of_get (h : l.getInferenceAccount a = some ia) :
    l.balanceOf a = ia.balance.amount := by
  rw [balanceOf, h]

theorem balanceOf_congr (h : l'.inferenceAccounts = l.inferenceAccounts) (a : Addr) :
    l'.balanceOf a = l.balanceOf a := by
  simp [balanceOf, getInferenceAccount, h]

theorem totalBalance_congr (h : l'.inferenceAccounts = l.inferenceAccounts) :
    l'.totalBalance = l.totalBalance := by
  rw [totalBalance, h, totalBalance]

theorem balanceOf_set (l : Ledger) (ia : InferenceAccount) (a : Addr) :
    (l.setInferenceAccount ia).balanceOf a =
      if ia.address = a then ia.balance.amount else l.balanceOf a := by
  unfold balanceOf
  rw [getInferenceAccount_set]
  by_cases h : ia.address = a
  · rw [if_pos h, if_pos h]
  · rw [if_neg h, if_neg h]

theorem totalBalance_set (l : Ledger) (ia : InferenceAccount) :
    (l.setInferenceAccount ia).totalBalance =
    l.totalBalance - l.balanceOf ia.address + ia.balance.amount := by
  have hpart : l.inferenceAccounts.part (fun _ ia => ia.balance.amount) ia.address =
      l.balanceOf ia.address := by
    unfold balanceOf getInferenceAccount Table.part
    cases l.inferenceAccounts.get ia.address <;> rfl
  have hsum := Table.sum_set l.inferenceAccounts (fun _ ia => ia.balance.amount) ia.address ia rfl
  rwa [hpart] at hsum

/-- An update of an account that keeps its balance. -/
theorem balanceOf_update (h : l.getInferenceAccount a = some ia) (frozen : Coin) (b : Addr) :
    (l.setInferenceAccount { ia with frozenBalance := frozen }).balanceOf b = l.balanceOf b := by
  rw [balanceOf_set]
  split
  · next hb =>
    have hab : a = b := (address_of_get h).symm.trans hb
    rw [← hab, balanceOf_of_get h]
  · rfl

theorem totalBalance_update (h : l.getInferenceAccount a = some ia) (frozen : Coin) :
    (l.setInferenceAccount { ia with frozenBalance := frozen }).totalBalance = l.totalBalance := by
  have hset := totalBalance_set l { ia with frozenBalance := frozen }
  have hbalance : l.balanceOf ia.address = ia.balance.amount := by
    rw [address_of_get h, balanceOf_of_get h]
  dsimp only at hset
  omega

theorem balanceOf_release (l : Ledger) (a : Addr) (t : TaskId) (b : Addr) :
    (l.release a t).balanceOf b = l.balanceOf b := by
  obtain ⟨hr, -⟩ | ⟨n, ia, -, hia, hr⟩ := release_cases l a t
  · rw [hr]
  · rw [hr]
    exact balanceOf_update hia _ b

theorem totalBalance_release (l : Ledger) (a : Addr) (t : TaskId) :
    (l.release a t).totalBalance = l.totalBalance := by
  obtain ⟨hr, -⟩ | ⟨n, ia, -, hia, hr⟩ := release_cases l a t
  · rw [hr]
  · rw [hr]
    exact totalBalance_update hia _

section
variable (h : l.getInferenceAccount a = some ia)
include h

theorem balanceOf_freeze (t : TaskId) (n : UInt64) (b : Addr) :
    (l.freeze ia t n).balanceOf b = l.balanceOf b :=
  balanceOf_update h _ b

theorem balanceOf_debit (x : Int) (b : Addr) :
    (l.debit ia x).balanceOf b = if a = b then l.balanceOf b - x else l.balanceOf b := by
  rw [debit, balanceOf_set]
  rw [address_of_get h]
  split
  · next hab => rw [← hab, balanceOf_of_get h]
  · rfl

theorem totalBalance_debit (x : Int) : (l.debit ia x).totalBalance = l.totalBalance - x := by
  rw [debit, totalBalance_set]
  dsimp only
  rw [address_of_get h, balanceOf_of_get h]
  omega

end

theorem balanceOf_credit (l : Ledger) (a : Addr) (x : Int) (b : Addr) :
    (l.credit a x).balanceOf b = if a = b then l.balanceOf b + x else l.balanceOf b := by
  unfold credit
  split
  · next hnone =>
    rw [balanceOf_set]
    split
    · next hab => rw [← hab, balanceOf, hnone, Int.zero_add]
    · rfl
  · next ia hia =>
    rw [balanceOf_set]
    rw [address_of_get hia]
    split
    · next hab => rw [← hab, balanceOf_of_get hia]
    · rfl

theorem totalBalance_credit (l : Ledger) (a : Addr) (x : Int) :
    (l.credit a x).totalBalance = l.totalBalance + x := by
  unfold credit
  split
  · next hnone =>
    have hzero : l.balanceOf a = 0 := by rw [balanceOf, hnone]
    rw [totalBalance_set]
    dsimp only
    omega
  · next ia hia =>
    rw [totalBalance_set]
    dsimp only
    rw [address_of_get hia, balanceOf_of_get hia]
    omega

end Ledger

/-! ## the bounds of a charge -/

section Charge
variable {params : Params} {balance : Int} {p : Payment} {asSuccess : Bool}

/-- A charge for a non-negative fee stays within the balance. -/
theorem Charge.within (h : Charge params fee balance p asSuccess) (hfee : 0 ≤ fee)
    (hbalance : 0 ≤ balance) : 0 ≤ p.paid ∧ p.paid ≤ balance := by
  cases h with
  | success due pay =>
    rw [pay.paid, due]
    exact ⟨le_min hfee hbalance, min_le_right ..⟩
  | fail _ pay =>
    rw [pay.paid]
    exact ⟨le_min pay.due hbalance, min_le_right ..⟩

/-- The fail fee is no more than the fee. -/
theorem failFee_le (hvalid : params.validate = none) (hfee : 0 ≤ fee) :
    failFee params fee ≤ fee := by
  have hle := Params.failRatio_le hvalid
  have hnn : 0 ≤ fee * params.failSettlementFeeRatio.toNat := mul_nonneg hfee (Int.natCast_nonneg _)
  rw [failFee, Int.tdiv_eq_ediv_of_nonneg hnn]
  refine Int.ediv_le_of_le_mul (by decide) ?_
  exact Int.mul_le_mul_of_nonneg_left (by omega) hfee

theorem failFee_nonpos (params : Params) (hfee : fee ≤ 0) : failFee params fee ≤ 0 := by
  have hnn : 0 ≤ -fee * params.failSettlementFeeRatio.toNat :=
    mul_nonneg (by omega) (Int.natCast_nonneg _)
  have hdiv := Int.tdiv_nonneg hnn (by decide : (0 : Int) ≤ 1000)
  rw [Int.neg_mul, Int.neg_tdiv] at hdiv
  unfold failFee
  omega

/-- A charge is capped at the balance, and what is due at the most the fee may
be. -/
theorem Charge.bounded (h : Charge params fee balance p asSuccess)
    (hvalid : params.validate = none) {limit : Int} (hlimit : fee ≤ limit) :
    p.paid = min p.due balance ∧ p.due ≤ max 0 limit := by
  cases h with
  | success _ pay => exact ⟨pay.paid, by omega⟩
  | fail _ pay =>
    refine ⟨pay.paid, ?_⟩
    obtain hfee | hfee := Int.le_total 0 fee
    · have := failFee_le hvalid hfee
      omega
    · have := failFee_nonpos params hfee
      omega

/-- The fund's part of a non-negative fee. -/
theorem fundPart_nonneg (params : Params) (h : 0 ≤ fee) : 0 ≤ fundPart params fee :=
  Int.tdiv_nonneg (mul_nonneg h (Int.natCast_nonneg _)) (by decide)

namespace Params

/-- The fee ratios are each at most 1000 and make up the whole. -/
@[mk_iff]
structure RatiosSum (p : Params) : Prop where
  executor : p.executorFeeRatio ≤ 1000
  verifier : p.verifierFeeRatio ≤ 1000
  fund : p.multiVerificationFundRatio ≤ 1000
  sum : p.executorFeeRatio + p.verifierFeeRatio + p.multiVerificationFundRatio = 1000

instance (p : Params) : Decidable p.RatiosSum := decidable_of_iff' _ (ratiosSum_iff ..)

/-- Ratios in range sum to the whole as numbers. -/
theorem RatiosSum.whole {p : Params} (h : p.RatiosSum) :
    p.executorFeeRatio.toNat + p.verifierFeeRatio.toNat + p.multiVerificationFundRatio.toNat =
    1000 := by
  have he := UInt32.le_iff_toNat_le.mp h.executor
  have hv := UInt32.le_iff_toNat_le.mp h.verifier
  have hf := UInt32.le_iff_toNat_le.mp h.fund
  have hsum := congrArg UInt32.toNat h.sum
  rw [UInt32.toNat_add, UInt32.toNat_add] at hsum
  change _ ≤ 1000 at he hv hf
  change _ = 1000 at hsum
  omega

/-- With ratios in range their sum does not wrap. -/
theorem RatiosSum.toNat_add {p : Params} (h : p.RatiosSum) :
    (p.verifierFeeRatio + p.multiVerificationFundRatio).toNat =
    p.verifierFeeRatio.toNat + p.multiVerificationFundRatio.toNat := by
  have hwhole := h.whole
  rw [UInt32.toNat_add]
  omega

/-- With ratios in range the verifiers' part of a fail fee is a part of it. -/
theorem RatiosSum.verifier_le {p : Params} (h : p.RatiosSum) :
    p.verifierFeeRatio.toNat ≤ (p.verifierFeeRatio + p.multiVerificationFundRatio).toNat := by
  rw [h.toNat_add]
  exact Nat.le_add_right ..

end Params

theorem failVerifierPart_le (hratios : params.RatiosSum) (h : 0 ≤ fee) :
    failVerifierPart params fee ≤ fee := by
  have hle := hratios.verifier_le
  unfold failVerifierPart
  generalize (params.verifierFeeRatio + params.multiVerificationFundRatio).toNat = d at hle
  generalize params.verifierFeeRatio.toNat = v at hle
  rw [Int.tdiv_eq_ediv_of_nonneg (mul_nonneg h (Int.natCast_nonneg v))]
  have hmul : fee * v ≤ fee * d := Int.mul_le_mul_of_nonneg_left (Int.ofNat_le.mpr hle) h
  by_cases hd : d = 0
  · simpa [hd] using h
  · exact Int.ediv_le_of_le_mul (by omega) hmul

/-- What a charge hands on was paid by the user. -/
theorem Charge.out_le (hratios : params.RatiosSum) (h : Charge params fee balance p asSuccess)
    (hfee : 0 ≤ fee) (hbalance : 0 ≤ balance) : p.verifiers + p.executor ≤ p.paid := by
  have hpaid := (h.within hfee hbalance).1
  cases h with
  | success _ pay =>
    rw [pay.out]
    have := fundPart_nonneg params hpaid
    split <;> omega
  | fail _ pay =>
    rw [pay.executor, Int.add_zero]
    by_cases hpos : 0 < p.paid
    · exact (pay.out hpos).trans (failVerifierPart_le hratios hpaid)
    · rw [pay.none (by omega)]
      exact hpaid

end Charge

end FunaiChain.Settlement
