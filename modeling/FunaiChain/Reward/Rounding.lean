import FunaiChain.Reward.Mints
import Mathlib.Algebra.Order.Ring.GeomSum

/-!
# FunaiChain.Reward.Rounding

How much is emitted.  The rewards of all heights stay below twice the base reward
times the halving period (`sum_blockRewards_le`), and so do the rewards of all epochs
(`sum_epochRewards`).

Rounding does not mint more than that.  Each weight of a loop may be rounded up, by
one and a half units in the last place at most; as long as the number of rows times
the reward is far below the scale, the rounded-down shares of all rows still fit into
the pool (`sum_shares_le`), and the last row takes what is left (`sum_plan_le`).
-/

namespace FunaiChain.Reward

variable {params : Params}

section
variable {b : Int} {H : Nat}

/-! ## windows -/

/-- The heights that the `n`-th epoch pays for. -/
def window (params : Params) (n : Nat) : List Int :=
  heights (epochStartHeight params (n * params.epochBlocks)) (n * params.epochBlocks)

theorem heights_append {a c : Int} (hab : a ≤ b + 1) (hbc : b ≤ c) :
    heights a b ++ heights (b + 1) c = heights a c := by
  obtain ⟨m, hm⟩ : ∃ m : Nat, b - a + 1 = m := ⟨(b - a + 1).toNat, by omega⟩
  obtain ⟨k, hk⟩ : ∃ k : Nat, c - b = k := ⟨(c - b).toNat, by omega⟩
  have hsecond : c - (b + 1) + 1 = k := by omega
  have hall : c - a + 1 = (m + k : Nat) := by omega
  simp only [heights, hm, hsecond, hall, Int.toNat_natCast, List.range_add, List.map_append,
    List.map_map]
  congr 1
  refine List.map_congr_left fun i _ => ?_
  simp only [Function.comp_apply, Nat.cast_add]
  omega

theorem epochStartHeight_eq (hvalid : params.Valid) (n : Nat) :
    epochStartHeight params ((n + 1 : Nat) * params.epochBlocks) = n * params.epochBlocks + 1 := by
  have hblocks := hvalid.blocks
  have hstart : ((n + 1 : Nat) : Int) * params.epochBlocks - params.epochBlocks + 1 =
      n * params.epochBlocks + 1 := by
    push_cast
    ring
  have hpos : 0 ≤ (n : Int) * params.epochBlocks := Int.mul_nonneg (by omega) hblocks.le
  unfold epochStartHeight
  rw [hstart, if_neg (by omega)]

/-- **The windows of the epochs cover every height from 1 exactly once.** -/
theorem flatMap_windows (hvalid : params.Valid) (n : Nat) :
    (List.range n).flatMap (fun i => window params (i + 1)) =
    heights 1 (n * params.epochBlocks) := by
  have hblocks := hvalid.blocks
  induction n with
  | zero => simp [heights]
  | succ n ih =>
    have hpos : 0 ≤ (n : Int) * params.epochBlocks := Int.mul_nonneg (by omega) hblocks.le
    have hnext : ((n + 1 : Nat) : Int) * params.epochBlocks =
        n * params.epochBlocks + params.epochBlocks := by
      push_cast
      ring
    rw [List.range_succ, List.flatMap_append, ih, List.flatMap_singleton, window,
      epochStartHeight_eq hvalid, heights_append (by omega) (by rw [hnext]; omega)]

/-! ## halving -/

theorem iterate_halve (hb : 0 ≤ b) (n : Nat) :
    (fun reward : Int => reward.tdiv 2)^[n] b = b / 2 ^ n := by
  induction n with
  | zero => simp
  | succ n ih =>
    have hquo : 0 ≤ b / 2 ^ n := Int.ediv_nonneg hb (by positivity)
    rw [Function.iterate_succ_apply', ih, Int.tdiv_eq_ediv_of_nonneg hquo,
      Int.ediv_ediv_of_nonneg (by positivity), pow_succ]

/-- A block reward is at most the base reward halved once for each period. -/
theorem calculateBlockReward_le (hvalid : params.Valid) (h : Nat) :
    0 ≤ calculateBlockReward params h ∧ calculateBlockReward params h ≤
    ((params.baseBlockReward.toNat / 2 ^ (h / params.halvingPeriod.toNat) : Nat) : Int) := by
  have hbase := hvalid.base
  have hhalving := hvalid.halving
  have hdiv : (h : Int).tdiv params.halvingPeriod = (h / params.halvingPeriod.toNat : Nat) := by
    grind
  unfold calculateBlockReward
  dsimp only
  rw [hdiv, Int.toNat_natCast, iterate_halve hbase]
  split
  · exact ⟨le_refl 0, Int.natCast_nonneg _⟩
  · grind

/-- A sum over whole periods, period by period. -/
theorem sum_periods (f : Nat → Nat) (hH : 0 < H) (k : Nat) :
    ∑ i ∈ Finset.range (k * H), f (i / H) = ∑ j ∈ Finset.range k, H * f j := by
  induction k with
  | zero => simp
  | succ k ih =>
    have hperiod : ∀ i ∈ Finset.range H, f ((k * H + i) / H) = f k := by
      intro i hi
      rw [Nat.mul_comm, Nat.mul_add_div hH, Nat.div_eq_of_lt (Finset.mem_range.mp hi), Nat.add_zero]
    rw [Nat.succ_mul, Finset.sum_range_add, ih, Finset.sum_range_succ,
      Finset.sum_const_nat hperiod, Finset.card_range]

/-- Halved every period, an amount sums to at most twice a period of it. -/
theorem sum_halved_le (b : Nat) (hH : 0 < H) (n : Nat) :
    ∑ i ∈ Finset.range n, b / 2 ^ (i / H) ≤ 2 * b * H := by
  have hsub : Finset.range n ⊆ Finset.range (n * H) :=
    Finset.range_subset_range.mpr (Nat.le_mul_of_pos_right n hH)
  calc ∑ i ∈ Finset.range n, b / 2 ^ (i / H)
      ≤ ∑ i ∈ Finset.range (n * H), b / 2 ^ (i / H) := Finset.sum_le_sum_of_subset hsub
    _ = ∑ j ∈ Finset.range n, H * (b / 2 ^ j) := sum_periods (fun j => b / 2 ^ j) hH n
    _ = H * ∑ j ∈ Finset.range n, b / 2 ^ j := (Finset.mul_sum ..).symm
    _ ≤ H * (b * 2 / (2 - 1)) := Nat.mul_le_mul_left H (Nat.geom_sum_le (le_refl 2) b n)
    _ = 2 * b * H := by
        rw [Nat.div_one]
        ring

/-- **The rewards of all heights** stay below twice a period of base rewards. -/
theorem sum_blockRewards_le (hvalid : params.Valid) (last : Int) :
    ((heights 1 last).map (calculateBlockReward params)).sum ≤
    2 * params.baseBlockReward * params.halvingPeriod := by
  have hbase := hvalid.base
  have hhalving := hvalid.halving
  have hsum : ((heights 1 last).map (calculateBlockReward params)).sum =
      ∑ i ∈ Finset.range (last - 1 + 1).toNat,
        calculateBlockReward params ((i + 1 : Nat) : Int) := by
    rw [heights, List.map_map, Finset.sum_eq_multiset_sum, Finset.range_val, ← Multiset.coe_range,
      Multiset.map_coe, Multiset.sum_coe]
    refine congrArg List.sum (List.map_congr_left fun i _ => ?_)
    rw [Function.comp_apply, Nat.cast_add, Nat.cast_one, Int.add_comm]
  have hbound : ∀ i ∈ Finset.range (last - 1 + 1).toNat,
      calculateBlockReward params ((i + 1 : Nat) : Int) ≤
        ((params.baseBlockReward.toNat / 2 ^ (i / params.halvingPeriod.toNat) : Nat) : Int) := by
    intro i _
    refine le_trans (calculateBlockReward_le hvalid (i + 1)).2 (Int.ofNat_le.mpr ?_)
    refine Nat.div_le_div_left ?_ (Nat.two_pow_pos _)
    exact Nat.pow_le_pow_right Nat.two_pos (Nat.div_le_div_right (Nat.le_succ i))
  rw [hsum]
  refine le_trans (Finset.sum_le_sum hbound) ?_
  rw [← Nat.cast_sum]
  have hhalved := sum_halved_le params.baseBlockReward.toNat
    (show 0 < params.halvingPeriod.toNat by omega) (last - 1 + 1).toNat
  refine le_trans (Int.ofNat_le.mpr hhalved) ?_
  push_cast
  rw [Int.toNat_of_nonneg hbase, Int.toNat_of_nonneg hhalving.le]

/-- The rewards of the first epochs are the rewards of their heights. -/
theorem sum_epochRewards (hvalid : params.Valid) (n : Nat) : ((List.range n).map fun i : Nat =>
        calculateEpochReward params ((i + 1 : Nat) * params.epochBlocks)).sum =
      ((heights 1 (n * params.epochBlocks)).map (calculateBlockReward params)).sum := by
  rw [← flatMap_windows hvalid n]
  induction n with
  | zero => rfl
  | succ _ ih =>
    rw [List.range_succ, List.map_append, List.sum_append, ih, List.flatMap_append,
      List.map_append, List.sum_append, List.flatMap_singleton, List.map_singleton,
      List.sum_singleton]
    rfl

end

open Dec (unit unit_pos)
open Dec
variable {ρ : Type} {rows : List ρ} {epochReward pool : Int} {w : Dec} {count : ρ → UInt64}
  {weight ratio : ρ → Dec} {part : ρ → Int}

/-- Rows with non-negative amounts. -/
theorem sum_amounts_nonneg (h : ∀ row ∈ rows, 0 ≤ part row) : 0 ≤ (rows.map part).sum := by
  refine List.sum_nonneg fun x hx => ?_
  obtain ⟨row, hrow, rfl⟩ := List.mem_map.mp hx
  exact h row hrow

/-! ## the loop -/

/-- A loop mints its pool at most, when the shares fit into it. -/
theorem sum_plan_le (addressOf : ρ → String) {share : ρ → Int}
    (hnonneg : ∀ row ∈ rows, 0 ≤ share row) {totalDistributed : Int}
    (hfits : totalDistributed + (rows.map share).sum ≤ pool) :
    ((plan pool addressOf share totalDistributed rows).map (·.amount)).sum ≤
    pool - totalDistributed := by
  induction rows generalizing totalDistributed with
  | nil =>
    simp only [plan, List.map_nil, List.sum_nil] at hfits ⊢
    omega
  | cons row rows ih =>
    have hrow := hnonneg row (.head _)
    have hrows : ∀ row ∈ rows, 0 ≤ share row := fun row hmem => hnonneg row (.tail _ hmem)
    have hrest := sum_amounts_nonneg hrows
    rw [List.map_cons, List.sum_cons] at hfits
    simp only [plan]
    split
    · rw [List.map_cons, List.sum_cons]
      cases rows with
      | nil =>
        simp only [plan, allocOf, List.isEmpty_nil, if_true, List.map_nil, List.sum_nil]
        omega
      | cons row' rows =>
        have halloc : allocOf pool share totalDistributed row (row' :: rows) = share row := rfl
        rw [halloc]
        have htail : ((plan pool addressOf share (totalDistributed + share row)
            (row' :: rows)).map (·.amount)).sum ≤ pool - (totalDistributed + share row) :=
          ih hrows (by omega)
        dsimp only
        omega
    · exact ih hrows (by omega)

/-- A loop mints its pool at least: its last row takes what is left. -/
theorem le_sum_plan {addressOf : ρ → String} {share : ρ → Int} (h : rows ≠ [])
    (totalDistributed : Int) : pool ≤
    totalDistributed + ((plan pool addressOf share totalDistributed rows).map (·.amount)).sum := by
  fun_induction plan pool addressOf share totalDistributed rows with
  | case1 => contradiction
  | case2 _ _ rows alloc _ ih =>
    cases rows with
    | nil => simp [alloc, allocOf, plan]
    | cons => grind
  | case3 _ _ rows alloc hnone ih =>
    cases rows with
    | nil => simpa [alloc, allocOf, plan] using hnone
    | cons => exact ih (by simp)

/-- **No part of a pool is lost to rounding**: a loop over some rows that returns mints its pool
at least, and exactly when the shares fit into it. -/
theorem pool_minted {env : Env} {s s' : State} {epoch : Int} {addressOf : ρ → String}
    {share : ρ → Int} (hsome : rows ≠ [])
    (h : distribute env epoch pool addressOf share 0 rows s = .ok s') :
    pool ≤ s'.supply - s.supply ∧ ((∀ row ∈ rows, 0 ≤ share row) → (rows.map share).sum ≤ pool →
      s'.supply - s.supply = pool) := by
  rw [distribute_eq] at h
  have hsupply := (payAll_spec (fun m hm => (mem_plan _ _ _ hm).1) h).supply
  have hge : pool ≤ 0 + ((plan pool addressOf share 0 rows).map (·.amount)).sum :=
    le_sum_plan hsome 0
  refine ⟨by omega, fun hnonneg hfits => ?_⟩
  have hle := sum_plan_le addressOf hnonneg ((Int.zero_add _).trans_le hfits)
  omega

/-- Two rows take a third of ten each; the second one also takes the rest. -/
theorem pool_minted_devnet : ∃ s', distribute devEnv 1 10 id (fun _ => 3) 0 ["a", "b"] devState =
    .ok s' ∧ s'.supply - devState.supply = 10 := by
  obtain ⟨s', hs', -⟩ : ∃ s', distribute devEnv 1 10 id (fun _ => 3) 0 ["a", "b"] devState =
      .ok s' ∧ True := by decide +kernel
  exact ⟨s', hs', (pool_minted (by simp) hs').2 (by simp) (by simp)⟩

/-! ## sums of rounded ratios -/

/-- Sums keep an inequality that holds row by row. -/
theorem sum_le_of_rows {f g : ρ → Int} (a b c : Int) (h : ∀ row ∈ rows, a * f row ≤ b * g row + c) :
    a * (rows.map f).sum ≤ b * (rows.map g).sum + rows.length * c := by
  induction rows with
  | nil => simp
  | cons row _ ih =>
    have hrow := h row (.head _)
    have hrest := ih fun row hmem => h row (.tail _ hmem)
    simp only [List.map_cons, List.sum_cons, List.length_cons]
    push_cast
    linarith

/-- The ratios of parts to their total. -/
theorem sum_ratios_le {total : Int} (hparts : ∀ row ∈ rows, 0 ≤ part row) (htotal : 0 < total)
    (hsum : (rows.map part).sum = total) :
    2 * (rows.map fun row => ((ofInt (part row)).quo (ofInt total)).raw).sum ≤
    2 * unit + rows.length := by
  have hrow : ∀ row ∈ rows, 2 * total * ((ofInt (part row)).quo (ofInt total)).raw ≤
        2 * unit * part row + total := by
    intro row hmem
    have hspec := (quo_ofInt_spec (hparts row hmem) htotal).2
    linarith
  have hrows := sum_le_of_rows (2 * total) (2 * unit) total hrow
  rw [hsum] at hrows
  have hscaled : total * (2 * (rows.map fun row =>
      ((ofInt (part row)).quo (ofInt total)).raw).sum) ≤
      total * (2 * unit + rows.length) := by linarith
  exact Int.le_of_mul_le_mul_left hscaled htotal

/-- Ratios multiplied by a weight. -/
theorem sum_weighted_le (hw : 0 ≤ w.raw) (hratio : ∀ row ∈ rows, 0 ≤ (ratio row).raw)
    (hsum : 2 * (rows.map fun row => (ratio row).raw).sum ≤ 2 * unit + rows.length) :
    2 * unit * (rows.map fun row => (w.mul (ratio row)).raw).sum ≤
    w.raw * (2 * unit + rows.length) + rows.length * unit := by
  have hrow : ∀ row ∈ rows,
      2 * unit * (w.mul (ratio row)).raw ≤ 2 * w.raw * (ratio row).raw + unit := by
    intro row hmem
    have hspec := (mul_spec hw (hratio row hmem)).2
    linarith
  have hrows := sum_le_of_rows (2 * unit) (2 * w.raw) unit hrow
  have hscaled := Int.mul_le_mul_of_nonneg_left hsum hw
  linarith

/-- **Shares by rounded weights fit into their pool.** -/
theorem sum_shares_le (hweight : ∀ row ∈ rows, 0 ≤ (weight row).raw)
    (hsum : 2 * (rows.map fun row => (weight row).raw).sum ≤ 2 * unit + 3 * rows.length)
    (hpool : 0 ≤ pool) (hle : pool ≤ epochReward) (hbound : rows.length * epochReward ≤ 10 ^ 17) :
    (rows.map fun row => shareOf (weight row) pool).sum ≤ pool := by
  have hrow : ∀ row ∈ rows, unit * shareOf (weight row) pool ≤ pool * (weight row).raw + 0 := by
    intro row hmem
    have hspec := (truncateInt_mulInt_spec (hweight row hmem) hpool).2
    unfold shareOf
    linarith
  have hrows := sum_le_of_rows unit pool 0 hrow
  have hscaled := Int.mul_le_mul_of_nonneg_left hsum hpool
  have hlength : (rows.length : Int) * pool ≤ 10 ^ 17 :=
    le_trans (Int.mul_le_mul_of_nonneg_left hle (Int.natCast_nonneg _)) hbound
  -- one more than the pool would take a whole unit, and rounding gives less
  have hunit : 3 * 10 ^ 17 < 2 * unit := by decide
  by_contra hlt
  push Not at hlt
  have hmore := Int.mul_le_mul_of_nonneg_left (Int.add_one_le_of_lt hlt) unit_pos.le
  linarith

/-! ## counts -/

theorem decOfUInt64_eq {n : UInt64} (h : n.toNat < 2 ^ 63) : decOfUInt64 n = ofInt n.toNat := by
  have hbits : 2 * n.toBitVec.toNat < 2 ^ 64 := by
    change 2 * n.toNat < 2 ^ 64
    omega
  rw [decOfUInt64, show n.toInt64.toInt = n.toNat from BitVec.toInt_eq_toNat_of_lt hbits]

/-- The natural sum of counts. -/
def countSum (count : ρ → UInt64) (rows : List ρ) : Nat :=
  (rows.map fun row => (count row).toNat).sum

theorem toNat_totalOf (h : countSum count rows < 2 ^ 63) :
    (totalOf count rows).toNat = countSum count rows := by
  unfold totalOf
  unfold countSum at h ⊢
  induction rows with
  | nil => rfl
  | cons _ _ ih =>
    rw [List.map_cons, List.sum_cons] at h ⊢
    rw [List.map_cons, List.sum_cons, UInt64.toNat_add, ih (by omega)]
    exact Nat.mod_eq_of_lt (by omega)

/-- The ratio of a count to the total of counts. -/
theorem countRatio_eq (h : countSum count rows < 2 ^ 63) {row : ρ} (hmem : row ∈ rows) :
    (decOfUInt64 (count row)).quo (decOfUInt64 (totalOf count rows)) =
    (ofInt ((count row).toNat : Int)).quo (ofInt (countSum count rows : Int)) := by
  have hle : (count row).toNat ≤ countSum count rows :=
    List.single_le_sum (by simp) _ (List.mem_map_of_mem hmem)
  rw [decOfUInt64_eq (by omega), decOfUInt64_eq (by rw [toNat_totalOf h]; exact h), toNat_totalOf h]

/-- The ratios of counts. -/
theorem sum_countRatios_le (h : countSum count rows < 2 ^ 63) (hpos : totalOf count rows ≠ 0) :
    (∀ row ∈ rows, 0 ≤ ((decOfUInt64 (count row)).quo (decOfUInt64 (totalOf count rows))).raw) ∧
    2 * (rows.map fun row =>
        ((decOfUInt64 (count row)).quo (decOfUInt64 (totalOf count rows))).raw).sum ≤
      2 * unit + rows.length := by
  have htotal : 0 < (countSum count rows : Int) := by
    have hne : (totalOf count rows).toNat ≠ 0 := fun hzero => hpos (UInt64.toNat_inj.mp hzero)
    rw [toNat_totalOf h] at hne
    omega
  have hratios : (rows.map fun row =>
      ((decOfUInt64 (count row)).quo (decOfUInt64 (totalOf count rows))).raw) =
      rows.map fun row =>
        ((ofInt ((count row).toNat : Int)).quo (ofInt (countSum count rows : Int))).raw :=
    List.map_congr_left fun row hmem => by rw [countRatio_eq h hmem]
  have hsum :
      (rows.map fun row => ((count row).toNat : Int)).sum = (countSum count rows : Int) := by
    rw [countSum, Nat.cast_list_sum, List.map_map]
    rfl
  constructor
  · intro row hmem
    rw [countRatio_eq h hmem]
    exact (quo_ofInt_spec (Int.natCast_nonneg _) htotal).1
  · rw [hratios]
    exact sum_ratios_le (fun _ _ => Int.natCast_nonneg _) htotal hsum

/-! ## the four loops -/

/-- The amounts and counts of a list of rows, and its length against the
reward. -/
structure Bounded {ρ : Type} (part : ρ → Int) (count : ρ → Nat) (rows : List ρ)
    (epochReward : Int) : Prop where
  parts : ∀ row ∈ rows, 0 ≤ part row
  counts : (rows.map count).sum < 2 ^ 63
  length : rows.length * epochReward ≤ 10 ^ 17

section Loops

/-- Parts weighted by fee and count. -/
theorem sum_feeCount_le {byFee byCount : ρ → Dec} (hvalid : params.Valid)
    (hfee : 2 * unit * (rows.map fun row => (byFee row).raw).sum ≤
    params.feeWeight.raw * (2 * unit + rows.length) + rows.length * unit)
    (hcount : 2 * unit * (rows.map fun row => (byCount row).raw).sum ≤
    params.countWeight.raw * (2 * unit + rows.length) + rows.length * unit) :
    2 * (rows.map fun row => ((byFee row).add (byCount row)).raw).sum ≤
    2 * unit + 3 * rows.length := by
  have hadd : (rows.map fun row => ((byFee row).add (byCount row)).raw).sum =
      (rows.map fun row => (byFee row).raw).sum + (rows.map fun row => (byCount row).raw).sum :=
    List.sum_map_add
  have hweights := hvalid.weights
  have hboth : (params.feeWeight.raw + params.countWeight.raw) * (2 * unit + rows.length) =
      unit * (2 * unit + rows.length) := by rw [hweights]
  have hscaled : unit * (2 * (rows.map fun row => ((byFee row).add (byCount row)).raw).sum) ≤
      unit * (2 * unit + 3 * rows.length) := by
    rw [hadd]
    linarith
  exact Int.le_of_mul_le_mul_left hscaled unit_pos

/-- A weight times a ratio that may be missing. -/
theorem sum_optional_le (rows : List ρ) (hw : 0 ≤ w.raw) (c : Prop) [Decidable c]
    (hratio : c → ∀ row ∈ rows, 0 ≤ (ratio row).raw)
    (hsum : c → 2 * (rows.map fun row => (ratio row).raw).sum ≤ 2 * unit + rows.length) :
    (∀ row ∈ rows, 0 ≤ (if c then w.mul (ratio row) else zero).raw) ∧
    2 * unit * (rows.map fun row => (if c then w.mul (ratio row) else zero).raw).sum ≤
      w.raw * (2 * unit + rows.length) + rows.length * unit := by
  by_cases hc : c
  · simp only [hc, if_true]
    exact ⟨fun row hmem => (mul_spec hw (hratio hc row hmem)).1,
      sum_weighted_le hw (hratio hc) (hsum hc)⟩
  · have hlen : (0 : Int) ≤ rows.length := Int.natCast_nonneg _
    have hbound : 0 ≤ w.raw * (2 * unit + rows.length) + rows.length * unit :=
      Int.add_nonneg (Int.mul_nonneg hw (by have := unit_pos; omega))
        (Int.mul_nonneg hlen unit_pos.le)
    have hzero : (rows.map fun _ => (0 : Int)).sum = 0 := by simp
    simp only [hc, if_false, zero, hzero, Int.mul_zero]
    exact ⟨fun _ _ => le_refl 0, hbound⟩

theorem mul_quo_zero (w d : Dec) : w.mul ((ofInt 0).quo d) = zero := by
  simp [mul, quo, ofInt, chopPrecisionAndRound, roundNat, zero, unit_pos]

variable (hpool : 0 ≤ pool) (hle : pool ≤ epochReward)
include hpool hle

/-- A loop over rows whose weights are rounded up little enough. -/
theorem sum_plan_weights_le {addressOf : ρ → String} (hweight : ∀ row ∈ rows, 0 ≤ (weight row).raw)
    (hsum : 2 * (rows.map fun row => (weight row).raw).sum ≤ 2 * unit + 3 * rows.length)
    (hbound : rows.length * epochReward ≤ 10 ^ 17) :
    ((plan pool addressOf (fun row => shareOf (weight row) pool) 0 rows).map (·.amount)).sum ≤
    pool := by
  have hshares := sum_shares_le hweight hsum hpool hle hbound
  have hplan := sum_plan_le addressOf
    (fun row hmem => (truncateInt_mulInt_spec (hweight row hmem) hpool).1)
    (show 0 + (rows.map fun row => shareOf (weight row) pool).sum ≤ pool by omega)
  rw [Int.sub_zero] at hplan
  exact hplan

theorem sum_contributionMints_le (hvalid : params.Valid) {contributions : List WorkerContribution}
    (h : Bounded (·.feeAmount) (·.taskCount.toNat) contributions epochReward) :
    ((contributionMints params pool contributions).map (·.amount)).sum ≤ pool := by
  obtain ⟨hfeeNonneg, hfee⟩ := sum_optional_le contributions hvalid.fee
    (0 < (contributions.map (·.feeAmount)).sum)
    (fun hpos c hmem => (quo_ofInt_spec (h.parts c hmem) hpos).1)
    (fun hpos => sum_ratios_le h.parts hpos rfl)
  have hnonzero : 0 < totalOf (fun c : WorkerContribution => c.taskCount) contributions →
      totalOf (fun c : WorkerContribution => c.taskCount) contributions ≠ 0 :=
    fun hpos heq => by simp [heq] at hpos
  obtain ⟨hcountNonneg, hcount⟩ := sum_optional_le contributions hvalid.count
    (0 < totalOf (fun c : WorkerContribution => c.taskCount) contributions)
    (fun hpos => (sum_countRatios_le h.counts (hnonzero hpos)).1)
    (fun hpos => (sum_countRatios_le h.counts (hnonzero hpos)).2)
  refine sum_plan_weights_le hpool hle (fun c hmem => ?_) (sum_feeCount_le hvalid hfee hcount)
    h.length
  exact Int.add_nonneg (hfeeNonneg c hmem) (hcountNonneg c hmem)

theorem sum_verificationMints_le (hvalid : params.Valid) {contribs : List VerificationContribution}
    (h : Bounded (·.fee) (fun c => c.verificationCount.toNat + c.auditCount.toNat) contribs
    epochReward) : ((verificationMints params pool contribs).map (·.amount)).sum ≤ pool := by
  have hcounts : countSum (fun c : VerificationContribution => c.count) contribs < 2 ^ 63 := by
    refine lt_of_le_of_lt ?_ h.counts
    refine List.sum_le_sum fun c _ => ?_
    exact Nat.mod_le _ _
  unfold verificationMints
  split
  · simpa using hpool
  next hpos =>
  obtain ⟨hratioNonneg, hratio⟩ := sum_countRatios_le hcounts hpos
  by_cases hnofee : (contribs.map (·.fee)).sum = 0
  · -- without fees the counts are the weights
    have hlen : (0 : Int) ≤ contribs.length := Int.natCast_nonneg _
    simp only [verificationWeight, hnofee, if_true]
    exact sum_plan_weights_le hpool hle hratioNonneg (le_trans hratio (by omega)) h.length
  · have hfeePos : 0 < (contribs.map (·.fee)).sum := by
      have hnonneg : 0 ≤ (contribs.map (·.fee)).sum := sum_amounts_nonneg h.parts
      omega
    -- a row without a fee has the weight zero in both readings
    have hbyFee : ∀ c ∈ contribs, verificationWeight params (contribs.map (·.fee)).sum
          (totalOf (fun c : VerificationContribution => c.count) contribs) c =
        (params.feeWeight.mul ((ofInt c.fee).quo (ofInt (contribs.map (·.fee)).sum))).add
        (params.countWeight.mul ((decOfUInt64 c.count).quo (decOfUInt64
          (totalOf (fun c : VerificationContribution => c.count) contribs)))) := by
      intro c hmem
      unfold verificationWeight
      rw [if_neg hnofee]
      by_cases hc : 0 < c.fee
      · rw [if_pos ⟨hfeePos, hc⟩]
      · have hzero : c.fee = 0 := by
          have := h.parts c hmem
          omega
        rw [if_neg fun hboth => hc hboth.2, hzero, mul_quo_zero]
    have hfeeRatio : ∀ c ∈ contribs,
        0 ≤ ((ofInt c.fee).quo (ofInt (contribs.map (·.fee)).sum)).raw :=
      fun c hmem => (quo_ofInt_spec (h.parts c hmem) hfeePos).1
    have hfee := sum_weighted_le hvalid.fee hfeeRatio (sum_ratios_le h.parts hfeePos rfl)
    have hcount := sum_weighted_le hvalid.count hratioNonneg hratio
    refine sum_plan_weights_le hpool hle (fun c hmem => ?_) ?_ h.length
    · rw [hbyFee c hmem]
      exact Int.add_nonneg (mul_spec hvalid.fee (hfeeRatio c hmem)).1
        (mul_spec hvalid.count (hratioNonneg c hmem)).1
    · rw [List.map_congr_left fun c hmem => congrArg raw (hbyFee c hmem)]
      exact sum_feeCount_le hvalid hfee hcount

theorem sum_signingMints_le {signers : List ConsensusSignerInfo}
    (h : Bounded (fun _ => 0) (·.blocksSigned.toNat) signers epochReward) :
    ((signingMints pool signers).map (·.amount)).sum ≤ pool := by
  unfold signingMints
  split
  · simpa using hpool
  next hpos =>
  obtain ⟨hnonneg, hratio⟩ := sum_countRatios_le h.counts hpos
  have hlen : (0 : Int) ≤ signers.length := Int.natCast_nonneg _
  exact sum_plan_weights_le hpool hle hnonneg (le_trans hratio (by omega)) h.length

theorem sum_stakeMints_le {onlineWorkers : List OnlineWorkerStake}
    (h : Bounded (·.stake) (fun _ => 0) onlineWorkers epochReward) :
    ((stakeMints pool onlineWorkers).map (·.amount)).sum ≤ pool := by
  unfold stakeMints
  split
  · simpa using hpool
  next hzero =>
  have hpos : 0 < (onlineWorkers.map (·.stake)).sum := by
    have hnonneg : 0 ≤ (onlineWorkers.map (·.stake)).sum := sum_amounts_nonneg h.parts
    omega
  have hratio := sum_ratios_le h.parts hpos rfl
  have hlen : (0 : Int) ≤ onlineWorkers.length := Int.natCast_nonneg _
  exact sum_plan_weights_le hpool hle (fun w hmem => (quo_ofInt_spec (h.parts w hmem) hpos).1)
    (le_trans hratio (by omega)) h.length

end Loops

/-! ## an epoch -/

/-- The lists that an epoch distributes by: no negative fees and stakes, counts
that sum below `2 ^ 63`, and no more rows than the scale allows.  Signers
count only in epochs without contributions, and stakes only without either. -/
structure ListsBounded (epochReward : Int) (contributions : List WorkerContribution)
    (contribs : List VerificationContribution) (signers : List ConsensusSignerInfo)
    (onlineWorkers : List OnlineWorkerStake) : Prop where
  inference : Bounded (·.feeAmount) (·.taskCount.toNat) contributions epochReward
  verification : Bounded (·.fee) (fun c => c.verificationCount.toNat + c.auditCount.toNat)
    contribs epochReward
  signing : contributions = [] → Bounded (fun _ => 0) (·.blocksSigned.toNat) signers epochReward
  staking : contributions = [] → signers = [] →
    Bounded (·.stake) (fun _ => 0) onlineWorkers epochReward

section Epoch

theorem epochReward_nonneg (hvalid : params.Valid) (height : Int) :
    0 ≤ calculateEpochReward params height := by
  refine List.sum_nonneg fun x hx => ?_
  obtain ⟨h, hmem, rfl⟩ := List.mem_map.mp hx
  obtain ⟨i, -, rfl⟩ := List.mem_map.mp hmem
  have hstart : 1 ≤ epochStartHeight params height := by
    unfold epochStartHeight
    dsimp only
    split <;> omega
  obtain ⟨n, hn⟩ := Int.eq_ofNat_of_zero_le (show 0 ≤ epochStartHeight params height + i by omega)
  rw [hn]
  exact (calculateBlockReward_le hvalid n).1

/-- The pools of an epoch are parts of its reward. -/
theorem pools_spec (hvalid : params.Valid) (h : 0 ≤ epochReward) :
    0 ≤ inferenceReward params epochReward ∧ 0 ≤ verifierReward params epochReward ∧
    0 ≤ fundReward params epochReward := by
  obtain ⟨hi, hinference⟩ := truncateInt_mulInt_spec hvalid.inference h
  obtain ⟨hv, hverification⟩ := truncateInt_mulInt_spec hvalid.verification h
  have hfund := hvalid.fund
  have hpools := hvalid.pools
  refine ⟨hi, hv, ?_⟩
  have hsum : unit * (inferenceReward params epochReward + verifierReward params epochReward) ≤
      unit * epochReward := by
    have hslack := Int.mul_nonneg hfund h
    rw [← hpools]
    unfold inferenceReward verifierReward shareOf
    rw [hpools]
    linarith [congrArg (· * epochReward) hpools]
  have hle := Int.le_of_mul_le_mul_left hsum unit_pos
  unfold fundReward
  omega

variable {contributions : List WorkerContribution} {contribs : List VerificationContribution}
  {signers : List ConsensusSignerInfo} {onlineWorkers : List OnlineWorkerStake} {height : Int}

/-- **The mints of an epoch and its slice of the fund** are its reward at
most. -/
theorem sum_epochMints_le (hvalid : params.Valid)
    (h : ListsBounded (calculateEpochReward params height) contributions contribs signers
    onlineWorkers) : ((epochMints params height contributions contribs signers onlineWorkers).map
    (·.amount)).sum + epochFund params height contributions ≤
    calculateEpochReward params height := by
  have hreward := epochReward_nonneg hvalid height
  obtain ⟨hinference, hverifier, hfund⟩ := pools_spec hvalid hreward
  unfold epochMints epochFund
  generalize calculateEpochReward params height = epochReward at *
  by_cases hzero : epochReward = 0
  · simp [hzero]
  cases hnone : contributions.isEmpty with
  | false =>
    have hfirst := sum_contributionMints_le hinference
      (show inferenceReward params epochReward ≤ epochReward by unfold fundReward at hfund; omega)
      hvalid h.inference
    have hsecond := sum_verificationMints_le hverifier
      (show verifierReward params epochReward ≤ epochReward by unfold fundReward at hfund; omega)
      hvalid h.verification
    simp only [hzero, if_false, Bool.not_false, if_true, or_self, Bool.false_eq_true, poolMints,
      List.map_append, List.sum_append, max_eq_right hfund]
    unfold fundReward
    split
    · omega
    · grind
  | true =>
    have hnil : contributions = [] := List.isEmpty_iff.mp hnone
    simp only [hzero, if_false, Bool.not_true, if_true, or_true, Bool.false_eq_true, Int.add_zero]
    cases hsigners : signers.isEmpty with
    | false =>
      exact sum_signingMints_le hreward (le_refl _) (h.signing hnil)
    | true =>
      simp only [Bool.not_true, Bool.false_eq_true, if_false]
      split
      · exact sum_stakeMints_le hreward (le_refl _) (h.staking hnil (List.isEmpty_iff.mp hsigners))
      · simpa using hreward

end Epoch

/-- **The emission cap.**  For valid parameters the windows of the epochs cover
every height from 1 exactly once; the rewards of any number of epochs are at
most twice the base reward times the halving period, which is the total supply
for the default parameters; and a distribution mints at most the reward of its
epoch. -/
theorem emission_cap (params : Params) (hvalidate : params.validate = .ok ()) :
    (∀ n : Nat, (List.range n).flatMap (fun i => window params (i + 1)) =
      heights 1 (n * params.epochBlocks)) ∧ (∀ n : Nat, ((List.range n).map fun i : Nat =>
        calculateEpochReward params ((i + 1 : Nat) * params.epochBlocks)).sum ≤
      2 * params.baseBlockReward * params.halvingPeriod) ∧
    2 * Params.default.baseBlockReward * Params.default.halvingPeriod = Params.default.totalSupply ∧
    ∀ (env : Env) (s s' : State) (height : Int) (contributions : List WorkerContribution)
      (contribs : List VerificationContribution) (signers : List ConsensusSignerInfo)
      (onlineWorkers : List OnlineWorkerStake), s.params = params →
      ListsBounded (calculateEpochReward params height) contributions contribs signers
        onlineWorkers →
      distributeRewards env s height contributions contribs signers onlineWorkers = .ok s' →
      s'.supply - s.supply ≤ calculateEpochReward params height := by
  have hvalid := Params.valid_of_validate hvalidate
  refine ⟨flatMap_windows hvalid, fun n => ?_, by decide, ?_⟩
  · rw [sum_epochRewards hvalid]
    exact sum_blockRewards_le hvalid _
  · rintro env s s' height contributions contribs signers onlineWorkers rfl hbounded hdistribute
    obtain ⟨s₁, hpaid, rfl⟩ := distributeRewards_spec hdistribute
    have hle := sum_epochMints_le hvalid hbounded
    have hsupply := hpaid.supply
    simp only [State.minted]
    omega

/-- The first epoch of the default parameters, with two workers and a
verifier. -/
theorem emission_cap_devnet :
    (∃ s', distributeRewards devEnv devState 100 [⟨"a", 10, 1⟩, ⟨"b", 20, 1⟩]
        [⟨"c", 1, 0, some 3⟩] [] [] = .ok s' ∧
      s'.supply - devState.supply ≤ calculateEpochReward Params.default 100) ∧
    ((List.range 3).map fun i : Nat => calculateEpochReward Params.default
        ((i + 1 : Nat) * Params.default.epochBlocks)).sum ≤ 210000000000000000 := by
  obtain ⟨-, hsum, hsupply, hmints⟩ := emission_cap Params.default Params.default_valid
  constructor
  · have hdistribute : ∃ s', distributeRewards devEnv devState 100 [⟨"a", 10, 1⟩, ⟨"b", 20, 1⟩]
        [⟨"c", 1, 0, some 3⟩] [] [] = .ok s' ∧ True := by decide +kernel
    obtain ⟨s', hs', -⟩ := hdistribute
    refine ⟨s', hs', hmints devEnv devState s' 100 _ _ _ _ rfl ?_ hs'⟩
    exact ⟨⟨by decide, by decide, by decide +kernel⟩, ⟨by decide, by decide, by decide +kernel⟩,
      fun _ => ⟨by decide, by decide, by decide +kernel⟩,
      fun _ _ => ⟨by decide, by decide, by decide +kernel⟩⟩
  · exact le_trans (hsum 3) (le_of_eq hsupply)

end FunaiChain.Reward
