import FunaiChain.App.Chain

/-!
# FunaiChain.App.Determinism

Do all nodes compute the same rewards?  The rows of the verification pool come
out of a Go map in any order, and the pool gives what is left to the last of
them.  `rewards_order_free_iff` says in which states the order is harmless.
-/

namespace FunaiChain.App

open Settlement (Ctx Counted devAddr)
open Reward

variable {env : Env} {ctx : Ctx} {s : State}

/-! ## when the order is harmless -/

/-- The rows have accounts of their own. -/
theorem verifierRows_distinct (b : Settlement.Book) :
    Distinct env.reward (·.address) (verifierRows env b) := by
  have hstrings : ((verifierRows env b).map (·.address)).Nodup := by
    rw [verifierRows_strings]
    exact Table.nodup_keys _
  have hany : Counted (fun _ => True) b :=
    ⟨fun _ _ _ => trivial, fun _ _ _ => trivial, fun _ _ _ => trivial, fun _ _ _ => trivial⟩
  refine ⟨hstrings, fun row hrow row' hrow' a ha ha' => ?_⟩
  obtain ⟨b₁, -, hb₁⟩ := address_of_mem_verifierRows hany hrow
  obtain ⟨b₂, -, hb₂⟩ := address_of_mem_verifierRows hany hrow'
  obtain rfl := env.decode_addressString b₁ a (hb₁ ▸ ha)
  obtain rfl := env.decode_addressString b₂ a (hb₂ ▸ ha')
  exact List.inj_on_of_nodup_map hstrings hrow hrow' (hb₁.trans hb₂.symm)

variable (env ctx s)

/-- The verification pool of the epoch that ends. -/
def verifierPool : Int :=
  verifierReward s.rewardParams (calculateEpochReward s.rewardParams ctx.height)

/-- The share of a row of the map. -/
def rowShare (c : VerifierSecondVerifierEpochCounts) : Int :=
  verificationShare s.rewardParams (verifierPool ctx s)
    ((verifierRows env s.settlement.book).map verificationContribution) (verificationContribution c)

/-- **Is there a verification pool to pay?**  The block ends an epoch with
contributions and counted verifications, the pool is not empty, and the
workers before it can be paid. -/
structure PoolDue (env : Env) (ctx : Ctx) (s : State) : Prop where
  ends : epochEnds ctx s = true
  contributions : (getContrib env ctx s).2 ≠ []
  counted : verificationsCounted ctx s = true
  pool : 0 < verifierPool ctx s
  counts : totalOf (·.count)
    ((verifierRows env s.settlement.book).map verificationContribution) ≠ 0
  workers : ∀ m ∈ contributionMints s.rewardParams
      (inferenceReward s.rewardParams (calculateEpochReward s.rewardParams ctx.height))
      (getContrib env ctx s).2,
    ∃ a, Accepted env.reward m.address a

/-- The balances and the records that an order leads to, if the block ends. -/
def rewardOutcome (order : MapOrder) : Option (Bank × Reward.RewardRecords) :=
  (rewardEndBlock env ctx order s).toOption.map fun s =>
    (s.settlement.world.bank, s.rewardRecords)

/-- Any order of the rows is the order of some iteration. -/
theorem exists_mapOrder {rows order : List VerifierSecondVerifierEpochCounts}
    (h : order.Perm rows) : ∃ o : MapOrder, o.visit rows = order :=
  ⟨⟨fun l => if l = rows then order else l, fun l => by
    split
    · next heq => rw [heq]; exact h
    · exact List.Perm.refl l⟩, if_pos rfl⟩

/-- The distribution that an order leads to. -/
def distributionOf (order : MapOrder) : Except Reward.Err Reward.State :=
  Reward.distributeRewards env.reward s.reward ctx.height (getContrib env ctx s).2
    (verificationRows env ctx order s) (getConsensusSigners s).2 (getOnlineWorkers env s)

variable {env ctx s}

theorem rewardOutcome_eq (hends : epochEnds ctx s = true) (o : MapOrder) :
    rewardOutcome env ctx s o =
    (distributionOf env ctx s o).toOption.map fun r => (r.bank, r.records) := by
  rw [rewardOutcome, rewardEndBlock_eq o hends]
  change ((distributionOf env ctx s o >>= fun r =>
    .ok ((afterCallbacks env ctx s).setReward r)).toOption.map _) = _
  cases distributionOf env ctx s o <;> rfl

/-- The two pools and the fund, when there is a pool. -/
theorem distributionOf_pools (hsome : (getContrib env ctx s).2 ≠ [])
    (hpool : 0 < verifierPool ctx s) (o : MapOrder) :
    distributionOf env ctx s o = (do
      let s₁ ← payAll env.reward (epochOf s.rewardParams ctx.height) s.reward
        (contributionMints s.rewardParams
          (inferenceReward s.rewardParams (calculateEpochReward s.rewardParams ctx.height))
          (getContrib env ctx s).2)
      let s₂ ← payAll env.reward (epochOf s.rewardParams ctx.height) s₁
        (verificationMints s.rewardParams (verifierPool ctx s) (verificationRows env ctx o s))
      mintFund env.reward s₂ (epochFund s.rewardParams ctx.height (getContrib env ctx s).2)) :=
  distributeRewards_pools hsome hpool

/-- The mints of the pool, by the rows of the map. -/
theorem verificationMints_rows (o : MapOrder) (hcounted : verificationsCounted ctx s = true)
    (hcounts : totalOf (·.count)
    ((verifierRows env s.settlement.book).map verificationContribution) ≠ 0) :
    verificationMints s.rewardParams (verifierPool ctx s) (verificationRows env ctx o s) =
    plan (verifierPool ctx s) (·.address) (rowShare env ctx s) 0
    (o.visit (verifierRows env s.settlement.book)) := by
  rw [verificationRows, if_pos hcounted,
    verificationMints_perm ((o.perm _).map _) hcounts, plan_map]
  rfl

/-- The order is harmless when a pool that is due is free of it. -/
theorem rewardOutcome_of_orderFree (hbank : Willing env.reward)
    (hfree : PoolDue env ctx s → OrderFree env.reward (verifierPool ctx s) (·.address)
    (rowShare env ctx s) (verifierRows env s.settlement.book)) (o o' : MapOrder) :
    rewardOutcome env ctx s o = rewardOutcome env ctx s o' := by
  by_cases hends : epochEnds ctx s = true
  case neg => simp [rewardOutcome, rewardEndBlock, hends]
  rw [rewardOutcome_eq hends, rewardOutcome_eq hends]
  suffices hsame : (distributionOf env ctx s o).toOption = (distributionOf env ctx s o').toOption by
    rw [hsame]
  by_cases hno : (getContrib env ctx s).2 = [] ∨ ¬ 0 < verifierPool ctx s
  · rw [distributionOf, distributionOf, distributeRewards_of_no_pool hno]
  rw [not_or, not_not] at hno
  rw [distributionOf_pools hno.1 hno.2, distributionOf_pools hno.1 hno.2]
  cases hworkers : payAll env.reward (epochOf s.rewardParams ctx.height) s.reward
      (contributionMints s.rewardParams
        (inferenceReward s.rewardParams (calculateEpochReward s.rewardParams ctx.height))
        (getContrib env ctx s).2) with
  | error => rw [error_bind, error_bind]
  | ok s₁ =>
    rw [ok_bind, ok_bind]
    refine toOption_bind_congr ?_ _
    cases hcounted : verificationsCounted ctx s with
    | false =>
      have hnone : ∀ o, verificationRows env ctx o s = [] := fun o => by
        rw [verificationRows, if_neg (by simp [hcounted])]
      rw [hnone o, hnone o']
    | true =>
      by_cases hcounts : totalOf (·.count)
          ((verifierRows env s.settlement.book).map verificationContribution) = 0
      · have hnone : ∀ o, verificationMints s.rewardParams (verifierPool ctx s)
            (verificationRows env ctx o s) = [] := fun o => by
          rw [verificationRows, if_pos hcounted]
          exact verificationMints_nil_of_count ((o.perm _).map _) hcounts
        rw [hnone o, hnone o']
      · have hpaid := payAll_spec (fun m hm => (mem_contributionMints hm).1) hworkers
        rw [verificationMints_rows o hcounted hcounts, verificationMints_rows o' hcounted hcounts]
        exact payAll_of_orderFree hbank (verifierRows_distinct _)
          (hfree ⟨hends, hno.1, hcounted, hno.2, hcounts, hpaid.accepted⟩) s₁
          (o.perm _) (o'.perm _)

/-- A pool that is due and not free of the order gives two outcomes. -/
theorem exists_outcomes_of_not_orderFree (hbank : Willing env.reward) (hdue : PoolDue env ctx s)
    (hfree : ¬ OrderFree env.reward (verifierPool ctx s) (·.address) (rowShare env ctx s)
    (verifierRows env s.settlement.book)) :
    ∃ o o', rewardOutcome env ctx s o ≠ rewardOutcome env ctx s o' := by
  obtain ⟨s₁, hworkers⟩ := payAll_returns hbank (epochOf s.rewardParams ctx.height) s.reward
    (fun m hm => (mem_contributionMints hm).1) hdue.workers
  obtain ⟨order, order', hperm, hperm', s₂, hpay, hdiffer⟩ :=
    exists_orders_of_not_orderFree hbank (verifierRows_distinct _)
      (epochOf s.rewardParams ctx.height) hdue.pool hfree s₁
  obtain ⟨o, rfl⟩ := exists_mapOrder hperm
  obtain ⟨o', rfl⟩ := exists_mapOrder hperm'
  have hpools : ∀ o : MapOrder, distributionOf env ctx s o = (do
      let s₂ ← payAll env.reward (epochOf s.rewardParams ctx.height) s₁
        (plan (verifierPool ctx s) (·.address) (rowShare env ctx s) 0
          (o.visit (verifierRows env s.settlement.book)))
      mintFund env.reward s₂
        (epochFund s.rewardParams ctx.height (getContrib env ctx s).2)) := by
    intro o
    rw [distributionOf_pools hdue.contributions hdue.pool, hworkers, ok_bind,
      verificationMints_rows o hdue.counted hdue.counts]
  refine ⟨o, o', fun hsame => ?_⟩
  rw [rewardOutcome_eq hdue.ends, rewardOutcome_eq hdue.ends, hpools, hpools, hpay,
    ok_bind] at hsame
  obtain ⟨s₃, hfund⟩ := mintFund_returns hbank s₂
    (epochFund s.rewardParams ctx.height (getContrib env ctx s).2)
  have hnonneg := epochFund_nonneg s.rewardParams ctx.height (getContrib env ctx s).2
  rw [hfund] at hsame
  obtain ⟨r, hr, hvalue⟩ := Option.map_eq_some_iff.mp hsame.symm
  obtain ⟨s₂', hpay', hfund'⟩ := bind_eq_ok.mp (eq_ok_of_toOption hr)
  obtain ⟨a, ha⟩ := hdiffer s₂' hpay'
  obtain rfl := mintFund_eq_ok hnonneg hfund
  obtain rfl := mintFund_eq_ok hnonneg hfund'
  have hbanks := congrArg (fun b : Bank => b.balance a bondDenom) (Prod.mk.inj hvalue).1
  have hbalance := balance_minted s₂ env.reward.settlementAccount a bondDenom hnonneg
  have hbalance' := balance_minted s₂' env.reward.settlementAccount a bondDenom hnonneg
  omega

/-- **The rewards do not depend on the order of the map** exactly when there is
no verification pool to pay, or the pool is paid out in the same way in every
order. -/
theorem rewards_order_free_iff (env : Env) (hbank : Willing env.reward) (ctx : Ctx) (s : State) :
    (∀ o o' : MapOrder, rewardOutcome env ctx s o = rewardOutcome env ctx s o') ↔
      (PoolDue env ctx s → OrderFree env.reward (verifierPool ctx s) (·.address)
        (rowShare env ctx s) (verifierRows env s.settlement.book)) := by
  constructor
  · intro hall hdue
    by_contra hfree
    obtain ⟨o, o', hdiffer⟩ := exists_outcomes_of_not_orderFree hbank hdue hfree
    exact hdiffer (hall o o')
  · exact rewardOutcome_of_orderFree hbank

/-! ## the end of an epoch of the devnet -/

/-- One worker with one task, and verifiers with their counts. -/
def devEpoch (verifiers : List (String × UInt64)) : State where
  settlement :=
    let s := (devChain 100 []).state.settlement
    let stats := { s.book.getEpochStats 0 with totalSettled := 1, verificationCount := 3 }
    { s with
      book := { s.book.setEpochStats stats with
        verifierEpochCount := verifiers.foldl (fun m v => m.put (devAddr v.1) v.2) ∅ }
      world := { s.world with
        workers := s.world.workers.set (devAddr "worker")
          { Settlement.devWorker "worker" with totalTasks := 1 } rfl } }
  workerSnapshots := ∅
  epochContributions := ∅
  blockSigners := ∅
  rewardParams := .default
  rewardRecords := ∅
  supply := 0

/-- Two verifiers whose shares of the pool leave a coin over. -/
def devVerifiers : List (String × UInt64) := [("x", 1), ("y", 2)]

/-- A pool of 48000000000 over the counts 1 and 2: whoever comes last receives
one coin more. -/
theorem last_row_takes_dust :
    (rewardOutcome devEnv ⟨100, [], []⟩ (devEpoch devVerifiers) forwards).map
        (fun r => (r.1.balance (devAddr "x") bondDenom, r.1.balance (devAddr "y") bondDenom)) =
      some (15999999999, 32000000001) ∧
    (rewardOutcome devEnv ⟨100, [], []⟩ (devEpoch devVerifiers) backwards).map
        (fun r => (r.1.balance (devAddr "x") bondDenom, r.1.balance (devAddr "y") bondDenom)) =
      some (16000000000, 32000000000) := by
  decide +kernel

/-- With equal counts nothing is left over, and every order gives the same. -/
theorem rewards_order_free_devnet :
    (rewardOutcome devEnv ⟨100, [], []⟩ (devEpoch [("x", 1), ("y", 1)]) forwards).isSome ∧
    ∀ o o' : MapOrder, rewardOutcome devEnv ⟨100, [], []⟩ (devEpoch [("x", 1), ("y", 1)]) o =
      rewardOutcome devEnv ⟨100, [], []⟩ (devEpoch [("x", 1), ("y", 1)]) o' := by
  refine ⟨by decide +kernel, (rewards_order_free_iff devEnv devEnv_willing _ _).mpr fun _ => ?_⟩
  exact .inr (.inl (by decide +kernel))

end FunaiChain.App
