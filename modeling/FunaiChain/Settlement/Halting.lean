import FunaiChain.Settlement.Underwriting
import FunaiChain.Settlement.Credit

/-!
# FunaiChain.Settlement.Halting

Whether the timeout sweep can halt the chain.  An entry drawn for audit is stored as
it came and settled thousands of blocks later in EndBlock, where a panic stops the
chain: on coins of different denoms, a negative coin, a price cap beyond 64 bits, or
a sum or product beyond 256 bits.

* `Splittable` is a fee that none of this can happen to.  What a settlement pays out
  is also added to counters that never go down, so a `State.Room` says how much they
  can still take (`settleAuditedTask_yields`).
* `State.Ready` is what the sweep needs for the tasks that are still to come; each
  turn keeps it for the rest (`timeoutTurn_yields`).  In a run whose batches name
  owners and amounts that can be split, every state is ready for whatever is due, as
  long as the counters have room (`timeouts_return`).  Batches are not checked for
  that, so a batch can leave a task that the sweep panics on (`timeouts_panic`).
-/

namespace FunaiChain.Settlement

variable {env : Env} {x : Int} {s : State}

section
open MathInt
variable {c fee : Coin} {amount d per room total y : Int} {ia : InferenceAccount} {b : Book}
  {u w : Addr}

/-! ## fees that can be split -/

/-- A fee in the default denom, not negative, whose products with amounts up
to its own bound fit. -/
structure Splittable (fee : Coin) : Prop where
  denom : fee.denom = defaultDenom
  nonneg : 0 ≤ fee.amount
  lt : fee.amount < 2 ^ 128

namespace Splittable

variable (h : Splittable fee)
include h

theorem of_le (hnn : 0 ≤ x) (hle : x ≤ fee.amount) : Splittable ⟨fee.denom, x⟩ :=
  ⟨h.denom, hnn, by have := h.lt; dsimp only; omega⟩

theorem validDenom : validDenom fee.denom = true := h.denom ▸ validDenom_default

theorem fits_mul {k : Int} (hnn : 0 ≤ k) (hk : k ≤ 2 ^ 128) : MathInt.Fits (fee.amount * k) := by
  refine fits_of_nonneg (Int.mul_nonneg h.nonneg hnn) ?_
  have hle : fee.amount * k ≤ (2 ^ 128 - 1) * 2 ^ 128 :=
    Int.mul_le_mul (by have := h.lt; omega) hk hnn (by decide)
  exact Int.lt_of_le_of_lt hle (by decide)

theorem share_eq (ratio : UInt32) (hd : d ≠ 0) :
    share fee.amount ratio d = .ok ((fee.amount * ratio.toNat).tdiv d) := by
  have hratio := ratio.toNat_lt
  exact share_eq_ok.mpr ⟨hd, h.fits_mul (Int.natCast_nonneg _) (by omega), rfl⟩

end Splittable

/-! ## room in the counters -/

/-- The fee counter of every verifier can grow by `room`. -/
def Book.FeeRoom (b : Book) (room : Int) : Prop :=
  ∀ a, 0 ≤ (b.verifierEpochFee.get a).getD 0 ∧ (b.verifierEpochFee.get a).getD 0 + room < 2 ^ 256

/-- The fee counters can grow by `x`, the earnings of the workers by `y`. -/
@[mk_iff]
structure State.Room (x y : Int) (s : State) : Prop where
  fees : s.book.FeeRoom x
  world : s.world.Sound defaultDenom y

-- a verifier without a counter starts from zero
instance (b : Book) (room : Int) : Decidable (b.FeeRoom room) :=
  decidable_of_iff (room < 2 ^ 256 ∧
      ∀ a fee, b.verifierEpochFee.get a = some fee → 0 ≤ fee ∧ fee + room < 2 ^ 256)
    ⟨fun ⟨hroom, hfees⟩ a => by
        cases hfee : b.verifierEpochFee.get a with
        | none =>
            rw [Option.getD_none]
            omega
        | some fee =>
            rw [Option.getD_some]
            exact hfees a fee hfee,
      fun h => by
        refine ⟨by have := h []; omega, fun a fee hfee => ?_⟩
        have := h a
        rwa [hfee] at this⟩

instance (x y : Int) (s : State) : Decidable (s.Room x y) := decidable_of_iff' _ (State.room_iff ..)

theorem Book.FeeRoom.mono {room' : Int} (h : b.FeeRoom room) (hle : room' ≤ room) :
    b.FeeRoom room' :=
  fun a => ⟨(h a).1, by have := (h a).2; omega⟩

theorem State.Room.mono {x' y' : Int} (h : s.Room x y) (hx : x' ≤ x) (hy : y' ≤ y) : s.Room x' y' :=
  ⟨h.fees.mono hx, h.world.mono hy⟩

theorem State.Room.mapLedger (h : s.Room x y) (f : Ledger → Ledger) : (s.mapLedger f).Room x y :=
  ⟨h.fees, h.world⟩

theorem incrementVerifierEpochFee_yields (h : b.FeeRoom room) (address : String) (hnn : 0 ≤ amount)
    (hle : amount ≤ room) :
    Yields (incrementVerifierEpochFee env b address amount) (·.FeeRoom (room - amount)) := by
  have hmono : b.FeeRoom (room - amount) := h.mono (by omega)
  unfold incrementVerifierEpochFee
  split
  · exact yields_ok hmono
  split
  · exact yields_ok hmono
  next a _ =>
  obtain ⟨hfee, hlt⟩ := h a
  have hfits : MathInt.Fits ((b.verifierEpochFee.get a).getD 0 + amount) :=
    fits_of_nonneg (by omega) (by omega)
  unfold Book.addFee
  rw [add_eq_ok.mpr ⟨rfl, hfits⟩]
  refine yields_ok fun a' => ?_
  rw [Table.get_put]
  split
  · grind
  · exact hmono a'

/-- A payout moves coins only. -/
theorem State.Room.payFromModule {s' : State} (h : s.Room x y) {dst : Addr}
    (hpay : s.payFromModule env dst c = some s') : s'.Room x y := by
  obtain ⟨bank, -, rfl⟩ := Option.map_eq_some_iff.mp hpay
  exact ⟨h.fees, h.world.percent, h.world.worker, h.world.staked⟩

theorem State.Room.jailWorker (h : s.Room x y) (ctx : Ctx) (addr : Addr) :
    Yields (s.jailWorker env ctx addr) (State.Room x y) := by
  exact (World.jailWorker_yields h.world ctx.height addr).bind fun w hw => yields_ok ⟨h.fees, hw⟩

/-! ## the splits -/

/-- The amount of a row leaves the rows after it their part. -/
theorem verifierAmount_yields {rest : List VerifierResult} (hper : 0 ≤ per) (hd : 0 ≤ d)
    (htotal : total < 2 ^ 256) (hshare : d + per * (rest.length + 1) ≤ total) :
    Yields (verifierAmount rest.isEmpty total per d) fun amount =>
      0 ≤ amount ∧ d + amount + per * rest.length ≤ total := by
  have hrest : 0 ≤ per * rest.length := Int.mul_nonneg hper (Int.natCast_nonneg _)
  rw [Int.mul_add, Int.mul_one] at hshare
  cases rest with
  | nil =>
    have hfits : MathInt.Fits (total - d) := fits_of_nonneg (by omega) (by omega)
    refine ⟨total - d, sub_eq_ok.mpr ⟨rfl, hfits⟩, by omega, ?_⟩
    simp
  | cons => exact yields_ok ⟨hper, by omega⟩

theorem payVerifiers_yields {vs : List VerifierResult} (hper : 0 ≤ per) (hd : 0 ≤ d)
    (htotal : total < 2 ^ 256) (hshare : d + per * vs.length ≤ total) (hx : total - d ≤ x)
    (hs : s.Room x y) : Yields (payVerifiers env defaultDenom total per vs s d)
    (OnValue fun r => r.1.Room (x - (total - d)) y) := by
  induction vs generalizing s d x with
  | nil =>
    have hle : d ≤ total := by simpa using hshare
    exact yields_ok (hs.mono (by omega) (Int.le_refl y))
  | cons v rest ih =>
    rw [List.length_cons, Int.natCast_add, Int.natCast_one] at hshare
    have hrest : 0 ≤ per * rest.length := Int.mul_nonneg hper (Int.natCast_nonneg _)
    unfold payVerifiers
    split
    · grind
    · refine (verifierAmount_yields hper hd htotal hshare).bind ?_
      rintro amount ⟨hnn, hshare⟩
      have hadd : add d amount = .ok (d + amount) :=
        add_eq_ok.mpr ⟨rfl, fits_of_nonneg (by omega) (by omega)⟩
      -- what is left of the total after this row, out of what is left of the room
      have hleft : x - amount - (total - (d + amount)) = x - (total - d) := by omega
      rw [Coin.new_eq_ok.mpr ⟨validDenom_default, hnn, rfl⟩, ok_bind]
      split
      · split
        · exact yields_ok trivial
        · next s₁ hpay =>
          have hs₁ := hs.payFromModule hpay
          refine (incrementVerifierEpochFee_yields hs₁.fees v.address hnn (by omega)).bind ?_
          intro book hbook
          rw [hadd, ok_bind, ← hleft]
          exact ih (by omega) hshare (by omega) ⟨hbook, hs₁.world⟩
      · rw [hadd, ok_bind, ← hleft]
        exact ih (by omega) hshare (by omega) (hs.mono (by omega) (Int.le_refl y))

theorem shareAmongVerifiers_yields (vs : List VerifierResult) (hnn : 0 ≤ total)
    (htotal : total < 2 ^ 256) (hx : total ≤ x) (hs : s.Room x y) :
    Yields (shareAmongVerifiers env s defaultDenom total vs)
    (OnValue fun r => r.1.Room (x - total) y) := by
  unfold shareAmongVerifiers
  dsimp only
  split
  · exact yields_ok (hs.mono (by omega) (Int.le_refl y))
  · next hsome =>
    have hne : ((dedupVerifierResults vs).length : Int) ≠ 0 := by simp_all
    rw [quo_eq_ok.mpr ⟨hne, rfl⟩, ok_bind, Int.tdiv_eq_ediv_of_nonneg hnn]
    have hmul := Int.ediv_mul_le total hne
    have hper : 0 ≤ total / (dedupVerifierResults vs).length :=
      Int.ediv_nonneg hnn (Int.natCast_nonneg _)
    have hleft : x - total = x - (total - 0) := by omega
    rw [hleft]
    exact payVerifiers_yields hper (Int.le_refl 0) htotal (by omega) (by omega) hs

theorem payExecutor_yields (workerAddr : Addr) (hnn : 0 ≤ amount) (hs : s.Room x y) :
    Yields (payExecutor env s defaultDenom amount workerAddr) (OnValue (State.Room x y)) := by
  unfold payExecutor
  rw [Coin.new_eq_ok.mpr ⟨validDenom_default, hnn, rfl⟩, ok_bind]
  split
  · split
    · exact yields_ok trivial
    · next s₁ hpay => exact yields_ok (hs.payFromModule hpay)
  · exact yields_ok hs

/-- The verifiers' and the fund's share are shares of one whole. -/
theorem shares_le {params : Params} (hratios : params.RatiosSum) {fee : Int} (h : 0 ≤ fee) :
    (fee * params.verifierFeeRatio.toNat).tdiv 1000 + fundPart params fee ≤ fee := by
  have hwhole := hratios.whole
  have hv : 0 ≤ fee * params.verifierFeeRatio.toNat := Int.mul_nonneg h (Int.natCast_nonneg _)
  have hf : 0 ≤ fee * params.multiVerificationFundRatio.toNat :=
    Int.mul_nonneg h (Int.natCast_nonneg _)
  have hsum : fee * params.verifierFeeRatio.toNat + fee * params.multiVerificationFundRatio.toNat
      ≤ fee * 1000 := by
    rw [← Int.mul_add]
    exact Int.mul_le_mul_of_nonneg_left (by omega) h
  unfold fundPart
  rw [Int.tdiv_eq_ediv_of_nonneg hv, Int.tdiv_eq_ediv_of_nonneg hf]
  omega

/-- A balance covers the fee or is taken whole. -/
theorem splitShortfall_yields {balance : Int} (hfee : Splittable fee) (hbalance : 0 ≤ balance) :
    Yields (splitShortfall (fee.isPositive && balance < fee.amount) fee balance) fun r =>
      ∃ paid, r = (⟨fee.denom, paid⟩, ⟨fee.denom, fee.amount - paid⟩) ∧
        0 ≤ paid ∧ paid ≤ fee.amount ∧ paid ≤ balance := by
  have hnn := hfee.nonneg
  have hlt := hfee.lt
  unfold splitShortfall
  rw [Coin.new_eq_ok.mpr ⟨hfee.validDenom, Int.le_refl 0, rfl⟩, ok_bind]
  simp only [Coin.isPositive, Bool.and_eq_true, decide_eq_true_eq]
  split
  · next hshort =>
    have hmissing : MathInt.Fits (fee.amount - balance) :=
      fits_of_nonneg (by omega) (by omega)
    rw [Coin.new_eq_ok.mpr ⟨hfee.validDenom, hbalance, rfl⟩, ok_bind,
      sub_eq_ok.mpr ⟨rfl, hmissing⟩, ok_bind,
      Coin.new_eq_ok.mpr ⟨hfee.validDenom, (by omega : 0 ≤ fee.amount - balance), rfl⟩, ok_bind]
    exact yields_ok ⟨balance, rfl, by omega⟩
  · next hcovered => exact yields_ok ⟨fee.amount, by rw [Int.sub_self], by omega⟩

/-- The paid fraction of the fee is what was paid. -/
theorem auditedDistributable_yields {paid : Int} (hfee : Splittable fee) (hnn : 0 ≤ paid)
    (hle : paid ≤ fee.amount) :
    Yields (auditedDistributable fee fee ⟨fee.denom, paid⟩ ⟨fee.denom, fee.amount - paid⟩)
    fun c => c = ⟨fee.denom, paid⟩ := by
  have hlt := hfee.lt
  unfold auditedDistributable
  simp only [Coin.isPositive, decide_eq_true_eq]
  split
  · next hshort =>
    have hne : fee.amount ≠ 0 := by omega
    rw [if_pos (by omega), mul_eq_ok.mpr ⟨rfl, hfee.fits_mul hnn (by omega)⟩, ok_bind,
      quo_eq_ok.mpr ⟨hne, rfl⟩, ok_bind, Int.mul_tdiv_cancel_left _ hne,
      Coin.new_eq_ok.mpr ⟨hfee.validDenom, hnn, rfl⟩]
    exact yields_ok rfl
  · next hwhole =>
    have hpaid : paid = fee.amount := by omega
    subst hpaid
    exact yields_ok rfl

section Settle
variable {ctx : Ctx} {apt : SecondVerificationPendingTask}

/-- An account that a fee can be taken from. -/
structure InferenceAccount.Chargeable (ia : InferenceAccount) : Prop where
  denom : ia.balance.denom = defaultDenom
  nonneg : 0 ≤ ia.balance.amount
  lt : ia.balance.amount < 2 ^ 256

theorem InferenceAccount.Chargeable.sub_eq (h : ia.Chargeable) (hc : Splittable c)
    (hle : c.amount ≤ ia.balance.amount) :
    ia.balance.sub c = .ok ⟨ia.balance.denom, ia.balance.amount - c.amount⟩ := by
  have hnn := hc.nonneg
  have hlt := h.lt
  exact Coin.sub_eq_ok.mpr ⟨h.denom.trans hc.denom.symm,
    fits_of_nonneg (by omega) (by omega), hle, rfl⟩

section
variable (hratios : s.params.RatiosSum) (hfee : Splittable fee) (hx : fee.amount ≤ x)
  (hs : s.Room x y)

include hratios hfee hx hs
variable (workerAddr : Addr) (vs : List VerifierResult)

theorem distributeSuccessFee_yields : Yields (distributeSuccessFee env s fee workerAddr vs)
    (OnValue fun r => r.1.Room (x - fee.amount) y) := by
  have hnn := hfee.nonneg
  have hlt := hfee.lt
  have hshares := shares_le hratios hnn
  have hfund := fundPart_nonneg s.params hnn
  have htotal : 0 ≤ (fee.amount * s.params.verifierFeeRatio.toNat).tdiv 1000 :=
    Int.tdiv_nonneg (Int.mul_nonneg hnn (Int.natCast_nonneg _)) (by decide)
  unfold distributeSuccessFee
  rw [hfee.share_eq _ (by decide), ok_bind, hfee.share_eq _ (by decide), ok_bind, hfee.denom]
  change _ + (fee.amount * s.params.multiVerificationFundRatio.toNat).tdiv 1000 ≤ _ at hshares
  change 0 ≤ (fee.amount * s.params.multiVerificationFundRatio.toNat).tdiv 1000 at hfund
  generalize (fee.amount * s.params.multiVerificationFundRatio.toNat).tdiv 1000 = fund at *
  generalize (fee.amount * s.params.verifierFeeRatio.toNat).tdiv 1000 = total at *
  refine ((shareAmongVerifiers_yields vs htotal (by omega) (by omega) hs).and_of
    (R := OnValue fun r => 0 ≤ r.2 ∧ r.2 ≤ total) ?_).bind ?_
  · rintro (_ | ⟨s₁, d⟩) hshare
    · trivial
    · obtain ⟨hd, -, hle⟩ := shareAmongVerifiers_spec rfl hshare
      exact ⟨hd, hle htotal⟩
  · rintro (_ | ⟨s₁, d⟩) ⟨hroom, hd⟩
    · exact yields_ok trivial
    · obtain ⟨hd, hle⟩ := hd
      have hrest : MathInt.Fits (fee.amount - d) := fits_of_nonneg (by omega) (by omega)
      have hexec : MathInt.Fits (fee.amount - d - fund) :=
        fits_of_nonneg (by omega) (by omega)
      dsimp only
      rw [sub_eq_ok.mpr ⟨rfl, hrest⟩, ok_bind, sub_eq_ok.mpr ⟨rfl, hexec⟩, ok_bind]
      have hleft : s₁.Room (x - fee.amount) y := State.Room.mono hroom (by omega) (Int.le_refl y)
      refine (payExecutor_yields workerAddr (by omega) hleft).bind ?_
      rintro (_ | s₂) hs₂
      · exact yields_ok trivial
      · exact yields_ok hs₂

theorem distributeFailFee_yields (hvalid : s.params.validate = none) :
    Yields (distributeFailFee env s fee vs) (OnValue fun r => r.1.Room (x - fee.amount) y) := by
  have hnn := hfee.nonneg
  have hlt := hfee.lt
  have hle : failVerifierPart s.params fee.amount ≤ fee.amount := failVerifierPart_le hratios hnn
  have htotal : 0 ≤ failVerifierPart s.params fee.amount :=
    Int.tdiv_nonneg (Int.mul_nonneg hnn (Int.natCast_nonneg _)) (Int.natCast_nonneg _)
  have hd :
      ((s.params.verifierFeeRatio + s.params.multiVerificationFundRatio).toNat : Int) ≠ 0 := by
    have hpos := Params.verifierFeeRatio_pos hvalid
    have := hratios.verifier_le
    omega
  unfold distributeFailFee
  split
  · exact yields_ok (hs.mono (by omega) (Int.le_refl y))
  · dsimp only
    rw [hfee.share_eq _ hd, ok_bind, hfee.denom]
    refine (shareAmongVerifiers_yields vs htotal (by omega) (by omega) hs).bind ?_
    rintro (_ | ⟨s₁, d⟩) hroom
    · exact yields_ok trivial
    · exact yields_ok (State.Room.mono hroom (by omega) (Int.le_refl y))

theorem payOutSuccess_yields : Yields (payOutSuccess env s fee workerAddr vs)
    (OnValue fun r => r.1.Room (x - fee.amount) y) := by
  have hnn := hfee.nonneg
  unfold payOutSuccess
  split
  · exact distributeSuccessFee_yields hratios hfee hx hs workerAddr vs
  · exact yields_ok (hs.mono (by omega) (Int.le_refl y))

theorem payOutFail_yields (hvalid : s.params.validate = none) :
    Yields (payOutFail env s fee vs) (OnValue fun r => r.1.Room (x - fee.amount) y) := by
  have hnn := hfee.nonneg
  unfold payOutFail
  split
  · exact distributeFailFee_yields hratios hfee hx hs vs hvalid
  · exact yields_ok (hs.mono (by omega) (Int.le_refl y))

/-! ## settling an audited task -/

theorem settleAuditedSuccess_yields (hia : ia.Chargeable) (hy : fee.amount ≤ y) :
    Yields (settleAuditedSuccess env ctx s apt u w ia fee false) fun r =>
      ∀ s' ∈ r, s'.Room (x - fee.amount) (y - fee.amount) := by
  have hnn := hfee.nonneg
  refine (splitShortfall_yields hfee hia.nonneg).bind ?_
  rintro _ ⟨paid, rfl, hpaid, hle, hcovered⟩
  have hsplit := hfee.of_le hpaid hle
  refine (auditedDistributable_yields hfee hpaid hle).bind ?_
  rintro _ rfl
  rw [hia.sub_eq hsplit hcovered, ok_bind]
  refine (payOutSuccess_yields (s := s.mapLedger _) hratios hsplit (by dsimp only; omega)
    (hs.mapLedger _) w (verifierRows apt)).bind ?_
  rintro (_ | ⟨s₁, split⟩) hroom
  · exact yields_ok (by simp)
  · have hroom : s₁.Room (x - paid) y := hroom
    refine (World.updateWorkerStats_yields (hroom.world.incrementSuccessStreak w) ctx.height w
      hsplit.denom hpaid (by dsimp only; omega)).bind fun w₁ hw₁ => yields_ok ?_
    intro s' hs'
    cases hs'
    exact ⟨hroom.fees.mono (by omega), hw₁.mono (by dsimp only; omega)⟩

theorem settleAuditedFail_yields (hvalid : s.params.validate = none) (hia : ia.Chargeable) :
    Yields (settleAuditedFail env ctx s apt u w ia fee) fun r =>
      ∀ s' ∈ r, s'.Room (x - fee.amount) (y - fee.amount) := by
  have hnn := hfee.nonneg
  have hfail : 0 ≤ (fee.amount * s.params.failSettlementFeeRatio.toNat).tdiv 1000 :=
    Int.tdiv_nonneg (Int.mul_nonneg hnn (Int.natCast_nonneg _)) (by decide)
  have hpart : (fee.amount * s.params.failSettlementFeeRatio.toNat).tdiv 1000 ≤ fee.amount :=
    failFee_le hvalid hnn
  unfold settleAuditedFail settleFail
  rw [hfee.share_eq _ (by decide), ok_bind]
  generalize (fee.amount * s.params.failSettlementFeeRatio.toNat).tdiv 1000 = due at hfail hpart
  have hdue := hfee.of_le hfail hpart
  rw [Coin.new_eq_ok.mpr ⟨hfee.validDenom, hfail, rfl⟩, ok_bind]
  refine (splitShortfall_yields hdue hia.nonneg).bind ?_
  rintro _ ⟨paid, rfl, hpaid, hle, hcovered⟩
  dsimp only at hle ⊢
  have hsplit := hdue.of_le hpaid hle
  rw [hia.sub_eq hsplit hcovered, ok_bind]
  refine (payOutFail_yields (s := s.mapLedger _) hratios hsplit (by dsimp only; omega)
    (hs.mapLedger _) (verifierRows apt) hvalid).bind ?_
  rintro (_ | ⟨s₁, split⟩) hroom
  · exact yields_ok (by simp)
  · have hroom : s₁.Room (x - paid) y := hroom
    refine (hroom.jailWorker ctx w).bind fun s₂ hs₂ => yields_ok ?_
    intro s' hs'
    cases hs'
    exact (hs₂.mapLedger _).mono (by omega) (by omega)

end

namespace SecondVerificationPendingTask

/-- A task whose fee can be computed and split, whatever the audit finds. -/
structure Priced (apt : SecondVerificationPendingTask) : Prop where
  nonneg : 0 ≤ apt.limit
  lt : apt.limit < 2 ^ 128
  cap : (0 < apt.feePerInputToken || 0 < apt.feePerOutputToken) = true → apt.limit < 2 ^ 64
  denom : (0 < apt.feePerInputToken || 0 < apt.feePerOutputToken) = false →
    apt.fee.denom = defaultDenom

end SecondVerificationPendingTask

theorem auditedFee_yields (h : apt.Priced) (override : UInt32) :
    Yields (auditedFee apt override) fun fee => Splittable fee ∧ fee.amount ≤ apt.limit := by
  have hnn := h.nonneg
  have hlt := h.lt
  refine Yields.and_of ?_ fun fee hfee => auditedFee_le_limit hfee
  unfold auditedFee
  split
  · next hper =>
    have hlimit : apt.limit = apt.maxFee.amount := if_pos hper
    have hcap := h.cap hper
    rw [hlimit] at hnn hcap
    have huint : Returns (uint64 apt.maxFee.amount) := by
      unfold uint64
      rw [if_pos ⟨hnn, hcap⟩]
      exact returns_ok _
    obtain ⟨cap, hcap⟩ := huint
    rw [hcap, ok_bind, Coin.new_eq_ok.mpr ⟨validDenom_default, ofUInt64_nonneg _, rfl⟩]
    refine yields_ok ⟨rfl, ofUInt64_nonneg _, ?_⟩
    exact (ofUInt64_lt _).trans (by decide)
  · next hper =>
    have hlimit : apt.limit = apt.fee.amount := if_neg hper
    rw [hlimit] at hnn hlt
    exact yields_ok ⟨h.denom (eq_false_of_ne_true hper), hnn, hlt⟩

/-- What a ledger needs for the account of a task: it can be charged, and its
frozen balance is a coin that the reservation can be taken from. -/
structure Ledger.Settles (env : Env) (l : Ledger) (apt : SecondVerificationPendingTask) :
    Prop where
  account : ∀ u ia, env.accAddressFromBech32 apt.userAddress = some u →
    l.getInferenceAccount u = some ia → ia.Chargeable
  frozen : ∀ u ia n, env.accAddressFromBech32 apt.userAddress = some u →
    l.getInferenceAccount u = some ia → l.frozenBalance.get apt.taskId = some n →
      ia.frozenBalance.denom = defaultDenom ∧
        MathInt.Fits (ia.frozenBalance.amount - MathInt.ofUInt64 n)

/-- **The settlement of an audited task returns**, and uses up no more room than
the most the task can cost. -/
theorem settleAuditedTask_yields (hvalid : s.params.validate = none)
    (hratios : s.params.RatiosSum) (hl : s.ledger.Settles env apt) (hprice : apt.Priced)
    (hx : apt.limit ≤ x) (hy : apt.limit ≤ y) (hs : s.Room x y) (asSuccess : Bool)
    (override : UInt32) : Yields (settleAuditedTask env ctx s apt asSuccess false override) fun r =>
      r.1.Room (x - apt.limit) (y - apt.limit) := by
  have hnn := hprice.nonneg
  have hkept : s.Room (x - apt.limit) (y - apt.limit) := hs.mono (by omega) (by omega)
  unfold settleAuditedTask
  split
  · exact yields_ok hkept
  split
  case h_2 => exact yields_ok hkept
  next u w hu hw =>
  split
  · exact yields_ok hkept
  next hmissing =>
  obtain ⟨⟨l, c⟩, hunfreeze⟩ : Returns (unfreezeBalance s.ledger u apt.taskId) :=
    unfreezeBalance_returns fun n ia hn hia => hl.frozen u ia n hu hia hn
  rw [hunfreeze, ok_bind]
  obtain rfl := unfreezeBalance_eq hunfreeze
  dsimp only
  split
  · next hnone =>
    -- a release removes no account
    have haccount : (s.ledger.release u apt.taskId).hasAccount u = true := by
      rw [Ledger.hasAccount_release]
      exact Option.isSome_iff_ne_none.mpr fun he => hmissing (Option.isNone_iff_eq_none.mpr he)
    have hnone : (s.ledger.release u apt.taskId).getInferenceAccount u = none := hnone
    rw [Ledger.hasAccount, hnone] at haccount
    contradiction
  · next ia' hia' =>
    obtain ⟨ia, hia, hbalance⟩ := Ledger.account_of_release hia'
    have hold := hl.account u ia hu hia
    have hcharge : ia'.Chargeable :=
      ⟨hbalance ▸ hold.denom, hbalance ▸ hold.nonneg, hbalance ▸ hold.lt⟩
    refine (auditedFee_yields hprice override).bind ?_
    rintro fee ⟨hfee, hle⟩
    have hroom : { s with ledger := s.ledger.release u apt.taskId }.Room x y := ⟨hs.fees, hs.world⟩
    refine Yields.bind (Q := fun r => ∀ s' ∈ r, s'.Room (x - fee.amount) (y - fee.amount)) ?_ ?_
    · split
      · exact settleAuditedSuccess_yields hratios hfee (by omega) hroom hcharge (by omega)
      · exact settleAuditedFail_yields hratios hfee (by omega) hroom hvalid hcharge
    · rintro (_ | s') hs'
      · exact yields_ok ⟨hkept.fees, hkept.world⟩
      · exact yields_ok ((hs' s' rfl).mono (by omega) (by omega))

end Settle

end

open Ledger
variable {height : Int} {params : Params} {fees : Int → Int}
  {apts : List SecondVerificationPendingTask} {l l' : Ledger} {c c₀ : Chain}
  {apt : SecondVerificationPendingTask} {ctx : Ctx}

/-! ## entries that can be settled later -/

namespace SettlementEntry

/-- The amount of the entry is not negative and can be split; a price cap is a
`uint64`. -/
@[mk_iff]
structure Affordable (e : SettlementEntry) : Prop where
  nonneg : 0 ≤ e.nominal.amount
  lt : e.nominal.amount < 2 ^ 128
  cap : e.isPerToken = true → e.nominal.amount < 2 ^ 64

instance (e : SettlementEntry) : Decidable e.Affordable := decidable_of_iff' _ (affordable_iff ..)

end SettlementEntry

theorem limit_pendingOf (height : Int) (e : SettlementEntry) :
    (pendingOf height e).limit = e.nominal.amount := by
  rw [SecondVerificationPendingTask.limit, perToken_pendingOf, SettlementEntry.nominal]
  split
  · next hper => simp [pendingOf, hper]
  · rfl

theorem priced_pendingOf {e : SettlementEntry} (h : e.Affordable)
    (hdenom : e.nominal.denom = defaultDenom) (height : Int) : (pendingOf height e).Priced where
  nonneg := limit_pendingOf height e ▸ h.nonneg
  lt := limit_pendingOf height e ▸ h.lt
  cap := by
    rw [perToken_pendingOf, limit_pendingOf]
    exact h.cap
  denom := by
    rw [perToken_pendingOf]
    intro hper
    rw [SettlementEntry.nominal, if_neg (by simp [hper])] at hdenom
    exact hdenom

/-! ## what the sweep needs -/

section Frozen
variable {Fee : Int → Prop} {Rel : Addr → TaskId → Prop}

theorem Ledger.Held.frozen_nonneg (h : l.Held) (a : Addr) : 0 ≤ (l.frozenCoin a).amount := by
  rw [h.sum]
  exact Table.sum_nonneg (l.reservedPart_nonneg a)

theorem MoneyStep.frozen_le (h : MoneyStep height params Fee Rel l l' x) (hl : l.Held)
    (a : Addr) : (l'.frozenCoin a).amount ≤ (l.frozenCoin a).amount := by
  cases h with
  | idle money =>
    rw [frozenCoin_congr (accounts_of_money money)]
  | release b t =>
    obtain ⟨hr, -⟩ | ⟨n, ia, -, hia, hr⟩ := release_cases l b t
    · rw [hr]
    · rw [hr, frozenCoin_releaseFrom hia]
      split
      · next hb =>
        have hnn := hl.frozen_nonneg b
        have hn := MathInt.ofUInt64_nonneg n
        subst hb
        dsimp only
        omega
      · exact Int.le_refl _
  | charge _ p _ _ _ account _ money =>
    rw [frozenCoin_congr (accounts_of_money money)]
    exact Int.le_of_eq (congrArg Coin.amount (frozenCoin_debit account p.paid a))

/-- No path of releases and charges freezes more. -/
theorem MoneyPath.frozen_le (h : MoneyPath height params Fee l.Owed l l' x) (hl : l.Held)
    (a : Addr) : (l'.frozenCoin a).amount ≤ (l.frozenCoin a).amount := by
  induction h with
  | refl => exact Int.le_refl _
  | tail before step ih => exact (step.frozen_le (before.held hl) a).trans ih

end Frozen

namespace Ledger

/-- No reservation is empty. -/
def Frozen (l : Ledger) : Prop :=
  ∀ t n, l.frozenBalance.get t = some n → 0 < MathInt.ofUInt64 n

/-- Balances and frozen balances are those of 256-bit integers. -/
def Fits (l : Ledger) : Prop :=
  ∀ a, l.balanceOf a < 2 ^ 256 ∧ (l.frozenCoin a).amount < 2 ^ 256

-- an address without an account holds nothing
instance (l : Ledger) : Decidable l.Fits :=
  decidable_of_iff (∀ a ia, l.inferenceAccounts.get a = some ia →
      ia.balance.amount < 2 ^ 256 ∧ ia.frozenBalance.amount < 2 ^ 256)
    ⟨fun h a => by
        cases hia : l.getInferenceAccount a with
        | none =>
            rw [balanceOf, frozenCoin, hia]
            decide
        | some ia =>
            rw [balanceOf_of_get hia, frozenCoin_of_get hia]
            exact h a ia hia,
      fun h a ia hia => by
        have := h a
        rwa [balanceOf_of_get hia, frozenCoin_of_get hia] at this⟩

/-- A ledger on which the given tasks can be settled one after the other. -/
structure Ready (env : Env) (apts : List SecondVerificationPendingTask) (l : Ledger) : Prop where
  denominated : l.Denominated
  funded : l.Funded
  held : l.Held
  frozen : l.Frozen
  fits : l.Fits
  owed : ∀ apt ∈ apts, ∀ u, env.accAddressFromBech32 apt.userAddress = some u → l.Owed u apt.taskId

theorem Ready.settles (h : l.Ready env apts) (hapt : apt ∈ apts) : l.Settles env apt where
  account := by
    intro u ia hu hia
    have hnn := h.funded u
    have hlt := (h.fits u).1
    rw [balanceOf_of_get hia] at hnn hlt
    exact ⟨h.denominated u ia hia, hnn, hlt⟩
  frozen := by
    intro u ia n hu hia hn
    have howner : (l.view apt.taskId).owner = some u :=
      (h.owed apt hapt u hu).resolve_left (by simp [hn])
    have hcovers := h.held.covers hn howner
    have hpos := h.frozen apt.taskId n hn
    have hlt := (h.fits u).2
    have hcoin := h.held.coin u
    rw [frozenCoin_of_get hia] at hcovers hlt hcoin
    obtain hzero | ⟨hdenom, -⟩ := hcoin
    · -- an account with nothing frozen covers no reservation
      rw [hzero] at hcovers
      have hcovers : MathInt.ofUInt64 n ≤ 0 := hcovers
      omega
    · exact ⟨hdenom, MathInt.fits_of_nonneg (by omega) (by omega)⟩

theorem Frozen.of_holds (h : l.Frozen) (hholds : ∀ t, (l.view t).Holds (l'.view t)) :
    l'.Frozen := by
  intro t n hn
  obtain hnone | hsame := (hholds t).frozen
  · exact nomatch hn.symm.trans hnone
  · exact h t n (hsame.symm.trans hn)

/-- Settling keeps a ledger ready for the tasks that are left. -/
theorem Ready.path (h : l.Ready env apts) (hpath : MoneyPath height params (0 ≤ ·) l.Owed l l' x) :
    l'.Ready env apts where
  denominated := hpath.denominated h.denominated
  funded := (hpath.lowers h.funded).1
  held := hpath.held h.held
  frozen := h.frozen.of_holds hpath.holds
  fits := fun a =>
    ⟨Int.lt_of_le_of_lt ((hpath.lowers h.funded).2 a) (h.fits a).1,
      Int.lt_of_le_of_lt (hpath.frozen_le h.held a) (h.fits a).2⟩
  owed := fun apt hapt u hu => (h.owed apt hapt u hu).of_holds (hpath.holds apt.taskId)

end Ledger

/-! ## the sweep -/

/-- The most that tasks can cost together. -/
def totalLimit (apts : List SecondVerificationPendingTask) : Int := (apts.map (·.limit)).sum

namespace State

/-- A state in which the given tasks can be settled one after the other. -/
structure Ready (env : Env) (apts : List SecondVerificationPendingTask) (s : State) : Prop where
  valid : s.params.validate = none
  ratios : s.params.RatiosSum
  ledger : s.ledger.Ready env apts
  priced : ∀ apt ∈ apts, apt.Priced
  room : s.Room (totalLimit apts) (totalLimit apts)

end State

section Sweep
variable {third : Bool}

theorem totalLimit_nonneg (h : ∀ apt ∈ apts, apt.Priced) : 0 ≤ totalLimit apts := by
  refine List.sum_nonneg fun x hx => ?_
  obtain ⟨apt, hapt, rfl⟩ := List.mem_map.mp hx
  exact (h apt hapt).nonneg

/-- **A turn of the sweep returns** and leaves the state ready for the next. -/
theorem timeoutTurn_yields {turn : SecondVerificationPendingTask × HeightKey}
    (h : s.Ready env (turn.1 :: apts)) :
    Yields (timeoutTurn env ctx third s turn) (State.Ready env apts) := by
  have hprice := h.priced turn.1 (.head _)
  have hpriced : ∀ apt ∈ apts, apt.Priced := fun apt hapt =>
    h.priced apt (.tail _ hapt)
  have hnn := totalLimit_nonneg hpriced
  have htotal : totalLimit (turn.1 :: apts) = turn.1.limit + totalLimit apts := by
    simp [totalLimit]
  have hroom : Yields (timeoutTurn env ctx third s turn)
      (State.Room (totalLimit apts) (totalLimit apts)) := by
    refine (settleAuditedTask_yields h.valid h.ratios (h.ledger.settles (.head _)) hprice
      (by omega) (by omega) h.room _ 0).bind ?_
    rintro ⟨s', settled⟩ hs'
    have hleft : s'.Room (totalLimit apts) (totalLimit apts) :=
      State.Room.mono hs' (by omega) (by omega)
    refine yields_ok (State.Room.mapLedger ?_ _)
    split
    · exact hleft
    · exact hleft.mapLedger _
  refine (hroom.and_of fun s' => (timeoutTurn_cases h.ledger.denominated).get).mono ?_
  rintro s' ⟨hs', l', out, hstep, hmove⟩
  have hpath : MoneyPath ctx.height s.params (0 ≤ ·) s.ledger.Owed s.ledger l' out := by
    refine hstep.path ⟨fun override fee hfee => ?_, h.ledger.owed turn.1 (.head _)⟩
    obtain ⟨fee', hfee', hsplit, -⟩ := auditedFee_yields hprice override
    cases hfee'.symm.trans hfee
    exact hsplit.nonneg
  have hafter := h.ledger.path hpath
  exact {
    valid := hmove.params ▸ h.valid
    ratios := hmove.params ▸ h.ratios
    ledger := hmove.ledger ▸ { hafter with
      owed := fun apt hapt => hafter.owed apt (.tail _ hapt) }
    priced := hpriced
    room := hs' }

theorem sweepQueue_eq (timeout : Int) : sweepQueue env ctx third timeout s =
    (s.ledger.dueTurns third (ctx.height - timeout)).foldlM (timeoutTurn env ctx third) s := by
  unfold sweepQueue dueTurns
  split
  · rfl
  · rfl

theorem sweepQueue_yields {timeout : Int} {later : List SecondVerificationPendingTask}
    (h : s.Ready env ((s.ledger.dueTurns third (ctx.height - timeout)).map Prod.fst ++ later)) :
    Yields (sweepQueue env ctx third timeout s) (State.Ready env later) := by
  rw [sweepQueue_eq]
  exact foldlM_yields (P := fun turns => State.Ready env (turns.map Prod.fst ++ later))
    (fun _ _ _ hs => timeoutTurn_yields hs) h

/-- The tasks that a sweep at a block settles, in both tiers. -/
def State.due (ctx : Ctx) (s : State) : List SecondVerificationPendingTask :=
  (s.ledger.dueTurns false (ctx.height - s.params.secondVerificationTimeout)).map Prod.fst ++
    (s.ledger.dueTurns true (ctx.height - s.params.thirdVerificationTimeout)).map Prod.fst

/-- **The sweep returns** when the state is ready for what is due. -/
theorem handleSecondVerificationTimeouts_returns (h : s.Ready env (s.due ctx)) :
    Returns (handleSecondVerificationTimeouts env ctx s) := by
  obtain ⟨s₁, hs₁, hready⟩ := sweepQueue_yields h
  obtain ⟨l', out, hsweep, hmove⟩ := (sweepQueue_cases h.ledger.denominated).get hs₁
  have hqueue : s₁.ledger.queue true = s.ledger.queue true := by
    rw [hmove.ledger]
    exact hsweep.queue_other
  have hdue : s₁.ledger.dueTurns true (ctx.height - s₁.params.thirdVerificationTimeout) =
      s.ledger.dueTurns true (ctx.height - s.params.thirdVerificationTimeout) := by
    rw [dueTurns, hqueue, hmove.params, dueTurns]
  rw [← hdue, ← List.append_nil (List.map ..)] at hready
  unfold handleSecondVerificationTimeouts
  rw [hs₁, ok_bind]
  exact (sweepQueue_yields hready).returns

end Sweep

/-! ## runs -/

theorem Ledger.frozen_credit (l : Ledger) (a : Addr) (x : Int) :
    (l.credit a x).frozenBalance = l.frozenBalance := by
  unfold credit
  split <;> rfl

/-- Only positive amounts are reserved. -/
theorem LedgerStep.frozen {lab : Label} {c : Int}
    (h : LedgerStep env height params fees l lab l' x c) (hl : l.Frozen) : l'.Frozen := by
  cases h.account_trivial with
  | deposit =>
    intro t n hn
    rw [frozen_credit] at hn
    exact hl t n hn
  | withdraw => exact hl
  | reserve row _ _ n res =>
    intro t m hm
    have hm : (l.frozenBalance.put row.taskId n).get t = some m := hm
    rw [Table.get_put] at hm
    split at hm
    · cases hm
      exact res.positive
    · exact hl t m hm
  | path _ path => exact hl.of_holds path.holds
  | refund _ money =>
    intro t n hn
    exact hl t n ((congrArg (·.frozenBalance.get t) money).symm.trans hn)
  | fund _ step =>
    cases step with
    | idle | paid => exact hl

theorem Run.frozen {P : Chain → Event → Prop} (hgenesis : AtGenesis env c₀) (run : Run env P c₀ c) :
    c.state.ledger.Frozen := by
  refine run.preserves hgenesis (I := fun c => c.state.ledger.Frozen) ?_
    fun _ _ _ _ _ _ hc _ hp => hp.steps.invariant hc fun _ _ _ _ _ _ hl hstep => hstep.frozen hl
  intro t n hn
  have hnone : (c₀.state.ledger.view t).frozen = none := by rw [hgenesis.initial.view]
  exact nomatch hn.symm.trans hnone

/-- Every batch names the owners of the reservations it is about, and amounts
that can be settled later. -/
@[mk_iff]
structure AffordableBatches (env : Env) (c : Chain) (ev : Event) : Prop where
  owned : OwnedBatches env c ev
  affordable : ∀ e ∈ ev.entries, e.Affordable

instance (env : Env) (c : Chain) (ev : Event) : Decidable (AffordableBatches env c ev) :=
  decidable_of_iff' _ (affordableBatches_iff ..)

theorem Run.priced (hgenesis : AtGenesis env c₀) (run : Run env (AffordableBatches env) c₀ c) :
    c.state.ledger.AllPending SecondVerificationPendingTask.Priced := by
  refine run.preserves hgenesis
    (I := fun c => c.state.ledger.AllPending SecondVerificationPendingTask.Priced)
    (hgenesis.initial.allPending _) ?_
  intro c ev c' x y _ hc hev hp
  refine hp.steps.invariant hc fun lab hlab l l' x y hl hstep => ?_
  refine hstep.allPending (fun e he u w adm => ?_) (fun apt hapt => { hapt with }) hl
  subst he
  exact priced_pendingOf (hev.affordable e (Event.issues hlab)) adm.denom _

/-- Amounts are 256-bit integers, the counters have room for everything that is due at a
block, and the active stake is a voting power. -/
@[mk_iff]
structure State.Ample (ctx : Ctx) (s : State) : Prop where
  fits : s.ledger.Fits
  room : s.Room (totalLimit (s.due ctx)) (totalLimit (s.due ctx))

instance (ctx : Ctx) (s : State) : Decidable (s.Ample ctx) :=
  decidable_of_iff' _ (State.ample_iff ..)

/-- A task that is due is pending. -/
theorem State.pending_of_due (h : apt ∈ s.due ctx) :
    ∃ third, s.ledger.pendingAt third apt.taskId = some apt := by
  have hdue : ∀ third cutoff, apt ∈ (s.ledger.dueTurns third cutoff).map Prod.fst →
      s.ledger.pendingAt third apt.taskId = some apt := by
    intro third cutoff hmem
    obtain ⟨turn, hturn, rfl⟩ := List.mem_map.mp hmem
    unfold dueTurns at hturn
    split at hturn
    · exact mem_sweepTurns hturn
    · simp at hturn
  obtain hsecond | hthird := List.mem_append.mp h
  · exact ⟨false, hdue false _ hsecond⟩
  · exact ⟨true, hdue true _ hthird⟩

/-- In such a run every state is ready for whatever is due, if it has room. -/
theorem Run.ready (hgenesis : AtGenesis env c₀) (hratios : c₀.state.params.RatiosSum)
    (run : Run env (AffordableBatches env) c₀ c) (hample : c.state.Ample ctx) :
    c.state.Ready env (c.state.due ctx) := by
  have hwf := run.wellFormed hgenesis
  have hreserved := Run.reserved hgenesis (run.mono fun _ _ h => h.owned)
  have hbilled : c.state.ledger.Billed :=
    Run.billed hgenesis (run.mono fun _ _ h e he => (h.affordable e he).nonneg)
  exact {
    valid := hwf.params
    ratios := (run.backed hgenesis).1 ▸ hratios
    ledger := {
      denominated := hwf.denominated
      funded := hbilled.funded
      held := hreserved.toHeld
      frozen := run.frozen hgenesis
      fits := hample.fits
      owed := by
        intro apt hapt u hu
        obtain ⟨third, hpending⟩ := State.pending_of_due hapt
        exact hreserved.pending third apt.taskId apt hpending u hu }
    priced := by
      intro apt hapt
      obtain ⟨third, hpending⟩ := State.pending_of_due hapt
      exact run.priced hgenesis third apt.taskId apt hpending
    room := hample.room }

/-- The clean-up of old records moves no money. -/
theorem State.Ready.cleanup (h : s.Ready env apts) (ctx : Ctx) :
    (cleanupExpiredTasks ctx s).Ready env apts where
  valid := h.valid
  ratios := h.ratios
  ledger := by
    have hidle : MoneyPath ctx.height s.params (0 ≤ ·) s.ledger.Owed s.ledger
        (cleanupExpiredTasks ctx s).ledger 0 := MoneyPath.refl.idle rfl
    exact h.ledger.path hidle
  priced := h.priced
  room := h.room.mapLedger _

/-- **The timeout sweep returns** at every block, in every state of a run whose
batches name owners and amounts that can be settled, while the counters have
room: from the state itself, and after the clean-up that EndBlock runs
before. -/
theorem timeouts_return {c₀ c : Chain} (hgenesis : AtGenesis env c₀)
    (hratios : c₀.state.params.RatiosSum) (run : Run env (AffordableBatches env) c₀ c)
    {ctx : Ctx} (hample : c.state.Ample ctx) :
    Returns (handleSecondVerificationTimeouts env ctx c.state) ∧
      Returns (handleSecondVerificationTimeouts env ctx (cleanupExpiredTasks ctx c.state)) := by
  have hready := run.ready hgenesis hratios hample
  exact ⟨handleSecondVerificationTimeouts_returns hready,
    handleSecondVerificationTimeouts_returns (hready.cleanup ctx)⟩

/-- An entry billed per token, with a price cap. -/
def devCapped (t : TaskId) (user : String) (maxFee : Int) : SettlementEntry :=
  { devEntry t user 0 0 with
    feePerInputToken := 1, feePerOutputToken := 1, maxFee := ⟨defaultDenom, maxFee⟩ }

/-- A reserved task and one billed per token time out together. -/
theorem timeouts_return_devnet : ∃ c, Run devEnv (AffordableBatches devEnv)
        (devnet .default [("user", 1000), ("other", 1000)]) c ∧
      (c.state.due c.ctx).map (·.taskId) = [[16], [17]] ∧
      Returns (handleSecondVerificationTimeouts devEnv c.ctx c.state) := by
  refine exists_and_imp
    (q := fun c => (c.state.due c.ctx).map (·.taskId) = [[16], [17]] ∧ c.state.Ample c.ctx)
    (Run.exists_of_exec
      [devReserve [devRow [16] "user" 100 0],
        devBatch [devEntry [16] "user" 100 0, devCapped [17] "other" 50],
        devEndBlock 9000] (by decide +kernel)) ?_
  rintro c run ⟨hdue, hample⟩
  exact ⟨hdue, (timeouts_return (atGenesis_devnet Params.default_valid (by decide)) (by decide) run
    hample).1⟩

/-- Four batches that are accepted and halt the chain when the audit times out,
each by another panic: a failed task with a negative fee, a price cap beyond
64 bits, an entry that names another user than the reservation, and a fee
whose product with the balance overflows. -/
theorem timeouts_panic : AtGenesis devEnv (devnet .default [("user", 1000), ("other", 1000)]) ∧
      ∀ p ∈ [Panic.negativeCoin, .uint64OutOfBound, .differentDenoms, .intOverflow],
        ∃ c, Run devEnv (fun _ _ => True) (devnet .default [("user", 1000), ("other", 1000)]) c ∧
          Stops (handleSecondVerificationTimeouts devEnv c.ctx c.state) p ∧
          (c.step devEnv (devEndBlock 9001)).isNone = true := by
  refine ⟨atGenesis_devnet Params.default_valid (by decide), ?_⟩
  simp only [List.forall_mem_cons]
  refine ⟨?_, ?_, ?_, ?_, by simp⟩
  · exact Run.exists_of_exec [devBatch [devFail [16] "user" (-1000) 0], devEndBlock 9000]
      (by decide +kernel)
  · exact Run.exists_of_exec [devBatch [devCapped [16] "user" (2 ^ 64)], devEndBlock 9000]
      (by decide +kernel)
  · exact Run.exists_of_exec [devReserve [devRow [16] "user" 100 0],
      devBatch [devEntry [16] "other" 100 0], devEndBlock 9000] (by decide +kernel)
  · exact Run.exists_of_exec [devBatch [devEntry [16] "user" (2 ^ 255) 0], devEndBlock 9000]
      (by decide +kernel)

end FunaiChain.Settlement
