import Mathlib.Tactic.Linarith
import Mathlib.Tactic.Ring

/-!
# FunaiChain.Lib.Dec

Fixed-point decimals with eighteen places, as integers scaled by `Dec.unit`.
Products and quotients are rounded to the nearest value, a tie to the even
one; a product with an integer is exact, and `truncateInt` drops the places.

The lemmas bound how far rounding can lift a value above the exact one: half
a unit in the last place for each product and quotient.  They are stated
without fractions, for the use in sums of shares.
-/

namespace FunaiChain

/-- A decimal, by its number of units in the last place. -/
structure Dec where
  raw : Int
  deriving DecidableEq, Repr

namespace Dec

/-- The scale: one is `unit` units in the last place. -/
def unit : Int := 10 ^ 18

theorem unit_pos : 0 < unit := by decide

/-- Drop the last eighteen digits of a natural number, rounding to the nearest
and a tie to the even. -/
def roundNat (n : Int) : Int :=
  let quo := n / unit
  let rem := n % unit
  if 2 * rem < unit then quo
  else if unit < 2 * rem then quo + 1
  else if quo % 2 = 0 then quo
  else quo + 1

/-- Likewise for an integer, by its absolute value. -/
def chopPrecisionAndRound (d : Int) : Int :=
  if d < 0 then -roundNat (-d) else roundNat d

def zero : Dec := ⟨0⟩

def one : Dec := ⟨unit⟩

def ofInt (n : Int) : Dec := ⟨n * unit⟩

variable (a b : Dec)

def add : Dec := ⟨a.raw + b.raw⟩

def mul : Dec := ⟨chopPrecisionAndRound (a.raw * b.raw)⟩

/-- The quotient; the divisor is not zero. -/
def quo : Dec := ⟨chopPrecisionAndRound ((a.raw * (unit * unit)).tdiv b.raw)⟩

def mulInt (n : Int) : Dec := ⟨a.raw * n⟩

def truncateInt : Int := a.raw.tdiv unit

def isNegative : Bool := a.raw < 0

def gt : Bool := b.raw < a.raw

/-- The decimal text, with all its places. -/
def toString : String :=
  let places := ToString.toString (a.raw.natAbs % unit.natAbs)
  (if a.raw < 0 then "-" else "") ++ ToString.toString (a.raw.natAbs / unit.natAbs) ++ "." ++
    String.ofList (List.replicate (18 - places.length) '0') ++ places

/-! ## rounding -/

theorem roundNat_spec (n : Int) :
    2 * unit * roundNat n ≤ 2 * n + unit ∧ 2 * n - unit ≤ 2 * unit * roundNat n := by
  have hdiv : unit * (n / unit) + n % unit = n := Int.mul_ediv_add_emod n unit
  have hnonneg : 0 ≤ n % unit := Int.emod_nonneg n (Int.ne_of_gt unit_pos)
  have hlt : n % unit < unit := Int.emod_lt_of_pos n unit_pos
  unfold roundNat
  dsimp only
  split
  · constructor <;> linarith
  · next hhalf =>
    split
    · constructor <;> linarith
    · split
      · constructor <;> linarith
      · constructor <;> linarith

theorem roundNat_nonneg {n : Int} (h : 0 ≤ n) : 0 ≤ roundNat n := by
  have hquo : 0 ≤ n / unit := Int.ediv_nonneg h unit_pos.le
  unfold roundNat
  dsimp only
  split
  · exact hquo
  · grind

theorem chop_of_nonneg {d : Int} (h : 0 ≤ d) : chopPrecisionAndRound d = roundNat d :=
  if_neg (by omega)

/-- A product of non-negative decimals, rounded up by half a unit at most. -/
theorem mul_spec {a b : Dec} (ha : 0 ≤ a.raw) (hb : 0 ≤ b.raw) :
    0 ≤ (a.mul b).raw ∧ 2 * unit * (a.mul b).raw ≤ 2 * (a.raw * b.raw) + unit := by
  have hprod : 0 ≤ a.raw * b.raw := Int.mul_nonneg ha hb
  simp only [mul, chop_of_nonneg hprod]
  exact ⟨roundNat_nonneg hprod, (roundNat_spec _).1⟩

/-- A ratio of integers, rounded up by half a unit at most. -/
theorem quo_ofInt_spec {a b : Int} (ha : 0 ≤ a) (hb : 0 < b) : 0 ≤ ((ofInt a).quo (ofInt b)).raw ∧
    2 * b * ((ofInt a).quo (ofInt b)).raw ≤ 2 * (a * unit) + b := by
  have hnum : 0 ≤ a * unit * (unit * unit) :=
    Int.mul_nonneg (Int.mul_nonneg ha unit_pos.le) (Int.mul_nonneg unit_pos.le unit_pos.le)
  have hden : 0 < b * unit := Int.mul_pos hb unit_pos
  -- the quotient before rounding
  have hquo : (a * unit * (unit * unit)).tdiv (b * unit) = a * (unit * unit) / b := by
    have hcomm : a * unit * (unit * unit) = a * (unit * unit) * unit := by ring
    rw [Int.tdiv_eq_ediv_of_nonneg hnum, hcomm, Int.mul_ediv_mul_of_pos_left _ _ unit_pos]
  have hq : 0 ≤ a * (unit * unit) / b :=
    Int.ediv_nonneg (Int.mul_nonneg ha (Int.mul_nonneg unit_pos.le unit_pos.le)) hb.le
  simp only [quo, ofInt, hquo, chop_of_nonneg hq]
  refine ⟨roundNat_nonneg hq, ?_⟩
  have hround := (roundNat_spec (a * (unit * unit) / b)).1
  have hfloor : b * (a * (unit * unit) / b) ≤ a * (unit * unit) := Int.mul_ediv_self_le (by omega)
  generalize a * (unit * unit) / b = q at hround hfloor
  generalize roundNat q = r at hround
  have hscaled : unit * (2 * b * r) ≤ unit * (2 * (a * unit) + b) := by
    nlinarith [Int.mul_le_mul_of_nonneg_left hround hb.le]
  exact Int.le_of_mul_le_mul_left hscaled unit_pos

/-- Dropping the places of a non-negative multiple. -/
theorem truncateInt_mulInt_spec {w : Dec} {n : Int} (hw : 0 ≤ w.raw) (hn : 0 ≤ n) :
    0 ≤ (w.mulInt n).truncateInt ∧ unit * (w.mulInt n).truncateInt ≤ w.raw * n := by
  have hprod : 0 ≤ w.raw * n := Int.mul_nonneg hw hn
  simp only [mulInt, truncateInt, Int.tdiv_eq_ediv_of_nonneg hprod]
  exact ⟨Int.ediv_nonneg hprod unit_pos.le, Int.mul_ediv_self_le (Int.ne_of_gt unit_pos)⟩

end Dec

end FunaiChain
