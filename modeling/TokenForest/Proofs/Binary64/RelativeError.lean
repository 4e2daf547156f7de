import Mathlib.Algebra.Group.Int.Defs
import TokenForest.Proofs.Binary64.Decimals
import TokenForest.Proofs.Binary64.Infinite
import TokenForest.Proofs.Binary64.ZeroSign

/-!
# Relative errors

Rounding moves a value by at most 2⁻⁵³ of it, or by half a unit where the value is very small. A sum of two finite numbers is a whole
number of units, so there the first bound holds alone. Where the exact sum is not larger than some finite number, the sum is finite.
-/

namespace TokenForest

namespace Binary64

variable {x y z : Binary64}

/-! ## The nearest count of units -/

/-- Around small values all counts of units are on the grid. -/
theorem gridStep_of_small {log : Nat} (h : log ≤ 52) : gridStep log = 1 := by
  rw [gridStep, Nat.sub_eq_zero_of_le h, Nat.pow_zero]

/-- Around large values a step of the grid is at most 2⁻⁵² of the value. -/
theorem gridStep_of_large {num den : Nat} (h : 52 ≤ (num / den).log2) : 2 ^ 52 * (den * gridStep (num / den).log2) ≤ num := by
  have hq : num / den ≠ 0 := by
    intro h0
    rw [h0] at h
    simp at h
  have hpow : 2 ^ 52 * gridStep (num / den).log2 = 2 ^ (num / den).log2 := by
    rw [gridStep, ← Nat.pow_add]
    congr 1
    omega
  calc 2 ^ 52 * (den * gridStep (num / den).log2) = den * (2 ^ 52 * gridStep (num / den).log2) := by ac_rfl
    _ = den * 2 ^ (num / den).log2 := by rw [hpow]
    _ ≤ den * (num / den) := Nat.mul_le_mul_left _ (Nat.log2_self_le hq)
    _ ≤ num := Nat.mul_div_le num den

/-- The nearest count is at most 2⁻⁵³ of the value away from it, or half a unit. -/
theorem nearestUnits_relative (num : Nat) {den : Nat} (hden : 0 < den) :
    2 ^ 53 * (nearestUnits num den * den) ≤ 2 ^ 53 * num + num + 2 ^ 52 * den ∧
      2 ^ 53 * num ≤ 2 ^ 53 * (nearestUnits num den * den) + num + 2 ^ 52 * den := by
  obtain ⟨hbelow, habove⟩ := nearestUnits_near num hden
  rcases Nat.le_total (num / den).log2 52 with hlog | hlog
  · rw [gridStep_of_small hlog] at hbelow habove
    omega
  · have hstep := gridStep_of_large hlog
    omega

/-- The count nearest to a whole number of units is at most 2⁻⁵³ of it away. -/
theorem nearestUnits_one (n : Nat) : 2 ^ 53 * nearestUnits n 1 ≤ 2 ^ 53 * n + n ∧ 2 ^ 53 * n ≤ 2 ^ 53 * nearestUnits n 1 + n := by
  obtain ⟨hbelow, habove⟩ := nearestUnits_near n Nat.one_pos
  rcases Nat.le_total (n / 1).log2 52 with hlog | hlog
  · rw [gridStep_of_small hlog] at hbelow habove
    omega
  · have hstep := gridStep_of_large hlog
    omega

/-! ## Sums -/

/-- A number whose rank lies between those of the infinities is finite. -/
theorem isFinite_of_rank (hx : x ≠ nan) (hlow : -beyond < x.rank) (hhigh : x.rank < beyond) : x.isFinite = true := by
  cases x with
  | finite u hu => rfl
  | negZero => rfl
  | posInf => exact absurd hhigh (Int.lt_irrefl _)
  | negInf => exact absurd hlow (Int.lt_irrefl _)
  | nan => exact absurd rfl hx

/-- A finite number is nearest to its own count of units. -/
theorem rank_ofUnits_units (hx : x.isFinite = true) : (ofUnits x.units).rank = x.units := by
  have hself : nearestUnits x.units.natAbs 1 = x.units.natAbs := by
    cases x with
    | finite u hu =>
      have hmul := nearestUnits_mul Nat.one_pos hu
      rwa [Nat.mul_one] at hmul
    | negZero => exact nearestUnits_zero 1
    | _ => simp [isFinite] at hx
  have hbetween := units_between x
  rw [rank_ofUnits, hself, capped]
  split <;> split <;> omega

/-- A sum is finite when the exact sum is not larger than some finite number. -/
theorem isFinite_add (hx : x.isFinite = true) (hy : y.isFinite = true) (hz : z.isFinite = true)
    (h : (x.units + y.units).natAbs ≤ z.units.natAbs) : (x + y).isFinite = true := by
  have hrank := rank_add hx hy
  have hbetween := units_between z
  have hcap : capped (nearestUnits (x.units + y.units).natAbs 1) ≤ capped (nearestUnits z.units.natAbs 1) :=
    capped_mono (nearestUnits_mono Nat.one_pos h)
  have hself := rank_ofUnits_units hz
  have hnonneg := capped_nonneg (nearestUnits (x.units + y.units).natAbs 1)
  rw [rank_ofUnits] at hrank hself
  apply isFinite_of_rank (add_ne_nan hx hy)
  · split at hrank <;> split at hself <;> omega
  · split at hrank <;> split at hself <;> omega

/-- A finite sum is at most 2⁻⁵³ of the exact sum away from it. -/
theorem add_relative (hx : x.isFinite = true) (hy : y.isFinite = true) (h : (x + y).isFinite = true) :
    2 ^ 53 * ((x + y).units - (x.units + y.units)).natAbs ≤ (x.units + y.units).natAbs := by
  have hrank := rank_add hx hy
  have hbetween := units_between (x + y)
  obtain ⟨hbelow, habove⟩ := nearestUnits_one (x.units + y.units).natAbs
  rw [rank_of_isFinite h, rank_ofUnits] at hrank
  unfold capped at hrank
  split at hrank <;> split at hrank <;> omega

/-- A sum that is not negative is finite, with a small error, or infinite. -/
theorem add_finite_or (hx : x.isFinite = true) (hy : y.isFinite = true) (h : 0 ≤ x.units + y.units) :
    (x + y).isFinite = true ∨ x + y = posInf := by
  have hrank := rank_add hx hy
  have hnonneg := capped_nonneg (nearestUnits (x.units + y.units).natAbs 1)
  have hpos := beyond_pos
  rw [rank_ofUnits, if_neg (by omega)] at hrank
  rcases cases_isFinite (x + y) with ⟨hfin, _⟩ | hinf | hneg | hnan
  · exact Or.inl hfin
  · exact Or.inr hinf
  · rw [hneg, rank] at hrank
    omega
  · exact absurd hnan (add_ne_nan hx hy)

/-! ## Differences -/

/-- A difference is finite when the exact difference is not larger than some finite number. -/
theorem isFinite_sub (hx : x.isFinite = true) (hy : y.isFinite = true) (hz : z.isFinite = true)
    (h : (x.units - y.units).natAbs ≤ z.units.natAbs) : (x - y).isFinite = true := by
  obtain ⟨hneg, hunits⟩ := isFinite_neg hy
  have hsum : (x.units + (-y).units).natAbs ≤ z.units.natAbs := by
    rw [hunits]
    exact h
  exact isFinite_add hx hneg hz hsum

/-- A finite difference is at most 2⁻⁵³ of the exact difference away from it. -/
theorem sub_relative (hx : x.isFinite = true) (hy : y.isFinite = true) (h : (x - y).isFinite = true) :
    2 ^ 53 * ((x - y).units - (x.units - y.units)).natAbs ≤ (x.units - y.units).natAbs := by
  obtain ⟨hneg, hunits⟩ := isFinite_neg hy
  have hadd := add_relative hx hneg h
  rw [hunits] at hadd
  exact hadd

end Binary64

end TokenForest
