import TokenForest.Proofs.Binary64.Rounding

/-!
# The ends of the line

The greatest finite number, and what comparisons and differences do with numbers that are not finite.
-/

namespace TokenForest

namespace Binary64

/-! ## The greatest finite number -/

/-- A multiple of the grid with at most this binary logarithm is at most the last point of the grid. -/
theorem le_of_log2_le {n e : Nat} (he : 52 < e) (hlog : n.log2 ≤ e) (hgrid : gridStep n.log2 ∣ n) :
    n ≤ (2 ^ 53 - 1) * gridStep e := by
  have hstep : 2 ^ (e + 1) = 2 ^ 53 * gridStep e := by
    rw [gridStep, ← Nat.pow_add]
    congr 1
    omega
  have hpos := gridStep_pos e
  rcases Nat.lt_or_eq_of_le hlog with hlt | heq
  · have hn : n < 2 ^ e := lt_two_pow_of_log2_lt hlt
    have hsucc : 2 ^ (e + 1) = 2 * 2 ^ e := by rw [Nat.pow_succ, Nat.mul_comm]
    omega
  · have hn : n < 2 ^ (e + 1) := lt_two_pow_of_log2_lt (by omega)
    obtain ⟨k, hk⟩ := hgrid
    rw [heq] at hk
    have hlt : k < 2 ^ 53 := by
      apply Nat.lt_of_mul_lt_mul_left (a := gridStep e)
      rw [← hk, Nat.mul_comm, ← hstep]
      exact hn
    rw [hk, Nat.mul_comm]
    exact Nat.mul_le_mul_right _ (by omega)

/-- The greatest finite number. -/
def greatest : Binary64 := ofUnits ((2 ^ 53 - 1) * gridStep 2097 : Nat)

theorem greatest_spec : greatest.isFinite = true ∧ greatest.units = ((2 ^ 53 - 1) * gridStep 2097 : Nat) := by decide +kernel

theorem isFinite_greatest : greatest.isFinite = true := greatest_spec.1

/-- No finite number is above the greatest one. -/
theorem le_greatest {x : Binary64} (h : x.isFinite = true) : x ≤ greatest := by
  rw [le_iff_units h isFinite_greatest, greatest_spec.2]
  cases x with
  | finite u hu =>
    have hle := le_of_log2_le (n := u.natAbs) (e := 2097) (by omega) (by have := hu.1; omega) (Nat.dvd_of_mod_eq_zero hu.2)
    simp only [units]
    exact Int.le_trans Int.le_natAbs (Int.ofNat_le.2 hle)
  | negZero => exact Int.natCast_nonneg _
  | _ => simp [isFinite] at h

/-! ## Numbers that are not finite -/

theorem cases_isFinite (x : Binary64) :
    x.isFinite = true ∧ x ≠ posInf ∧ x ≠ negInf ∧ x ≠ nan ∨ x = posInf ∨ x = negInf ∨ x = nan := by
  cases x <;> simp [isFinite]

theorem eq_posInf_of_le {x : Binary64} (h : posInf ≤ x) : x = posInf := by
  cases x <;> first | rfl | exact absurd h nofun

theorem eq_negInf_of_le {x : Binary64} (h : x ≤ negInf) : x = negInf := by
  cases x <;> first | rfl | exact absurd h nofun

theorem add_infinite {x : Binary64} (h : x.isFinite = true) :
    x + posInf = posInf ∧ posInf + x = posInf ∧ x + negInf = negInf ∧ negInf + x = negInf := by
  cases x with
  | finite u hu => exact ⟨rfl, rfl, rfl, rfl⟩
  | negZero => exact ⟨rfl, rfl, rfl, rfl⟩
  | _ => simp [isFinite] at h

/-- Differences of a finite number and an infinite one. -/
theorem sub_infinite {x : Binary64} (h : x.isFinite = true) :
    posInf - x = posInf ∧ negInf - x = negInf ∧ x - posInf = negInf ∧ x - negInf = posInf := by
  obtain ⟨_, hpos, _, hneg⟩ := add_infinite (isFinite_neg h).1
  obtain ⟨hpos', _, hneg', _⟩ := add_infinite h
  exact ⟨hpos, hneg, hneg', hpos'⟩

/-- Differences of two numbers that are not finite. -/
theorem sub_not_finite : posInf - posInf = nan ∧ negInf - negInf = nan ∧ posInf - negInf = posInf ∧ negInf - posInf = negInf ∧
    (∀ x : Binary64, nan - x = nan) ∧ ∀ x : Binary64, x - nan = nan := by
  refine ⟨rfl, rfl, rfl, rfl, fun x => rfl, fun x => ?_⟩
  cases x <;> rfl

end Binary64

end TokenForest
