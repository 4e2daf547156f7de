import TokenForest.Binary64.Decimal
import TokenForest.Proofs.Binary64.SixPlaces

/-!
# Shortest decimals read back

The decimal that is written for a finite number is nearest to it, whichever of the tried grids it comes from and however many zeros are
dropped at its end. A decimal that is nearest to a finite number is never so far out of range that reading answers from its size alone, so
it is read as that number.
-/

namespace TokenForest

namespace Binary64

/-! ## Ratios -/

/-- Rounding a quotient does not depend on how the ratio is written. -/
theorem roundHalfEven_scale (num den : Nat) {k : Nat} (hk : 0 < k) : roundHalfEven (num * k) (den * k) = roundHalfEven num den := by
  have hbelow : 2 * (num % den * k) < den * k ↔ 2 * (num % den) < den := by
    rw [← Nat.mul_assoc, Nat.mul_lt_mul_right hk]
  have habove : den * k < 2 * (num % den * k) ↔ den < 2 * (num % den) := by
    rw [← Nat.mul_assoc, Nat.mul_lt_mul_right hk]
  simp only [roundHalfEven, Nat.mul_div_mul_right _ _ hk, Nat.mul_mod_mul_right, hbelow, habove]

/-- Ratios of the same value have the same nearest count of units. -/
theorem nearestUnits_congr {num den num' den' : Nat} (hden : 0 < den) (hden' : 0 < den') (h : num * den' = num' * den) :
    nearestUnits num den = nearestUnits num' den' := by
  have hscale : ∀ (n d : Nat) {k : Nat}, 0 < k → nearestUnits (n * k) (d * k) = nearestUnits n d := by
    intro n d k hk
    rw [nearestUnits_eq, nearestUnits_eq, Nat.mul_div_mul_right _ _ hk, Nat.mul_right_comm, roundHalfEven_scale _ _ hk]
  rw [← hscale num den hden', ← hscale num' den' hden, h, Nat.mul_comm den]

/-- A value of less than half a unit is nearest to zero. -/
theorem nearestUnits_of_two_mul_lt {num den : Nat} (h : 2 * num < den) : nearestUnits num den = 0 := by
  have hq : num / den = 0 := Nat.div_eq_of_lt (by omega)
  have hstep : gridStep (Nat.log2 0) = 1 := by simp [gridStep]
  rw [nearestUnits_eq, hq, hstep, Nat.mul_one, Nat.mul_one, roundHalfEven, hq, Nat.mod_eq_of_lt (by omega)]
  exact if_pos h

namespace Decimal

/-! ## The nearest count of a decimal -/

/-- The value of a decimal as a ratio of units, with a power of ten on one side at most. -/
theorem nearest_eq (d : Decimal) :
    d.nearest = nearestUnits (d.digits * 10 ^ d.exponent.toNat * unitsPerOne) (10 ^ (-d.exponent).toNat) := by
  obtain ⟨digits, exponent⟩ := d
  cases exponent with
  | ofNat e =>
    have hneg : (-(Int.ofNat e)).toNat = 0 := by simp
    simp only [hneg, Nat.pow_zero]
    rfl
  | negSucc e =>
    have htoNat : (Int.negSucc e).toNat = 0 := rfl
    have hneg : (-(Int.negSucc e)).toNat = e + 1 := rfl
    simp only [htoNat, hneg, Nat.pow_zero, Nat.mul_one]
    rfl

/-- Final zeros may be moved into the exponent. -/
theorem nearest_shift (digits zeros : Nat) (exponent : Int) :
    (⟨digits * 10 ^ zeros, exponent⟩ : Decimal).nearest = (⟨digits, exponent + zeros⟩ : Decimal).nearest := by
  have hpow : 10 ^ zeros * 10 ^ exponent.toNat * 10 ^ (-(exponent + zeros)).toNat =
      10 ^ (exponent + zeros).toNat * 10 ^ (-exponent).toNat := by
    rw [← Nat.pow_add, ← Nat.pow_add, ← Nat.pow_add]
    congr 1
    omega
  rw [nearest_eq, nearest_eq]
  refine nearestUnits_congr (Nat.pow_pos (by omega)) (Nat.pow_pos (by omega)) ?_
  generalize unitsPerOne = one
  calc digits * 10 ^ zeros * 10 ^ exponent.toNat * one * 10 ^ (-(exponent + zeros)).toNat
      = digits * one * (10 ^ zeros * 10 ^ exponent.toNat * 10 ^ (-(exponent + zeros)).toNat) := by ac_rfl
    _ = digits * 10 ^ (exponent + zeros).toNat * one * 10 ^ (-exponent).toNat := by
      rw [hpow]
      ac_rfl

theorem nearest_dropZeros (fuel : Nat) (d : Decimal) : (dropZeros fuel d).nearest = d.nearest := by
  induction fuel generalizing d with
  | zero => rfl
  | succ fuel ih =>
    rw [dropZeros]
    split
    · rename_i h
      have hdigits : d.digits / 10 * 10 ^ 1 = d.digits := by omega
      have hshift := nearest_shift (d.digits / 10) 1 d.exponent
      rw [hdigits] at hshift
      rw [ih]
      exact hshift.symm
    · rfl

/-- The finite decimal expansion of a count of units is nearest to it. -/
theorem nearest_exact {n : Nat} (h : Representable n) : (exact n).nearest = n := by
  have hexact : exact n = ⟨n * 5 ^ unitExponent, -(unitExponent : Int)⟩ := by
    unfold unitExponent
    rfl
  have hten : n * 5 ^ unitExponent * unitsPerOne = n * 10 ^ unitExponent := by
    rw [unitsPerOne_eq, Nat.mul_assoc, ← Nat.mul_pow]
  have hneg : (-(unitExponent : Int)).toNat = 0 := by omega
  rw [hexact, nearest_eq]
  simp only [hneg, Int.neg_neg, Int.toNat_natCast, Nat.pow_zero, Nat.mul_one]
  rw [hten]
  exact nearestUnits_mul (Nat.pow_pos (by omega)) h

/-- What is written for a count of units is nearest to it. -/
theorem nearest_shortest {n : Nat} (h : Representable n) : (shortest n).nearest = n := by
  rw [shortest, nearest_dropZeros]
  cases hfound : ((List.range 17).map (· + 1)).findSome? (onGrid? n (leadingExponent n)) with
  | none => exact nearest_exact h
  | some d =>
    obtain ⟨count, _, hgrid⟩ := List.exists_of_findSome?_eq_some hfound
    simp only [onGrid?] at hgrid
    rw [Option.getD_some]
    exact of_decide_eq_true (List.find?_some (p := fun d : Decimal => decide (d.nearest = n)) hgrid)

theorem digits_ne_zero {d : Decimal} (h : d.nearest ≠ 0) : d.digits ≠ 0 := by
  intro hzero
  apply h
  rw [nearest_eq, hzero, Nat.zero_mul, Nat.zero_mul, nearestUnits_zero]

end Decimal

/-! ## Reading -/

theorem two_pow_le_ten_pow (e : Nat) : 2 ^ (3 * e) ≤ 10 ^ e := by
  rw [Nat.pow_mul]
  exact Nat.pow_le_pow_left (by omega) e

/-- A decimal with a great exponent is beyond the range of the format. -/
theorem not_representable_of_large {digits e : Nat} (hdigits : digits ≠ 0) (he : 400 < e) :
    ¬Representable (nearestUnits (digits * 10 ^ e * unitsPerOne) 1) := by
  have hlarge : 2 ^ (3 * e + unitExponent) ≤ digits * 10 ^ e * unitsPerOne := by
    rw [Nat.pow_add, ← unitsPerOne_eq]
    exact Nat.mul_le_mul_right _ (Nat.le_trans (two_pow_le_ten_pow e) (Nat.le_mul_of_pos_left _ (Nat.pos_of_ne_zero hdigits)))
  have hexponent : 2098 ≤ 3 * e + unitExponent := by
    unfold unitExponent
    omega
  generalize digits * 10 ^ e * unitsPerOne = n at hlarge ⊢
  have hn : n ≠ 0 := Nat.ne_of_gt (Nat.lt_of_lt_of_le (Nat.two_pow_pos _) hlarge)
  have hnearest : 2 ^ n.log2 ≤ nearestUnits n 1 := by
    simpa only [Nat.div_one] using two_pow_le_nearestUnits Nat.one_pos (by rwa [Nat.div_one])
  have hpos : nearestUnits n 1 ≠ 0 := Nat.ne_of_gt (Nat.lt_of_lt_of_le (Nat.two_pow_pos _) hnearest)
  intro h
  have hlog : n.log2 ≤ (nearestUnits n 1).log2 := (Nat.le_log2 hpos).2 hnearest
  have hvalue : 3 * e + unitExponent ≤ n.log2 := (Nat.le_log2 hn).2 hlarge
  have hrange := h.1
  omega

/-- A decimal with a small exponent is less than half a unit. -/
theorem nearestUnits_of_small {digits e : Nat} (he : digits.log2 + 400 < e) :
    nearestUnits (digits * unitsPerOne) (10 ^ (e + 1)) = 0 := by
  have hexponent : digits.log2 + 1 + unitExponent + 1 ≤ 3 * (e + 1) := by
    unfold unitExponent
    omega
  apply nearestUnits_of_two_mul_lt
  calc 2 * (digits * unitsPerOne) < 2 * (2 ^ (digits.log2 + 1) * unitsPerOne) :=
        Nat.mul_lt_mul_of_pos_left (Nat.mul_lt_mul_of_pos_right Nat.lt_log2_self unitsPerOne_pos) (by omega)
    _ = 2 ^ (digits.log2 + 1 + unitExponent + 1) := by
      rw [unitsPerOne_eq, ← Nat.pow_add, Nat.mul_comm 2, ← Nat.pow_succ]
    _ ≤ 2 ^ (3 * (e + 1)) := Nat.pow_le_pow_right (by omega) hexponent
    _ ≤ 10 ^ (e + 1) := two_pow_le_ten_pow (e + 1)

/-- A decimal is read as the number that it is nearest to. -/
theorem ofDecimal_eq {d : Decimal} (negative : Bool) (h : Representable d.nearest) (hne : d.nearest ≠ 0) :
    ofDecimal negative d.digits d.exponent = ofMagnitude negative d.nearest := by
  have hdigits := Decimal.digits_ne_zero hne
  obtain ⟨digits, exponent⟩ := d
  cases exponent with
  | ofNat e =>
    have he : ¬400 < e := fun he => not_representable_of_large hdigits he h
    simp only [ofDecimal, if_neg hdigits, if_neg he]
    rfl
  | negSucc e =>
    have he : ¬digits.log2 + 400 < e := fun he => hne (nearestUnits_of_small he)
    simp only [ofDecimal, if_neg he]
    rfl

end Binary64

end TokenForest
