import Mathlib.Algebra.Group.Int.Defs
import TokenForest.Proofs.Binary64.SixPlaces

/-!
# Differences of decimals

Rounding moves numbers between zero and one by far less than numbers of six places lie apart. So where the difference of two of them is
compared with a third one and a slack in between, the rounding of the two sides does not matter.
-/

namespace TokenForest

namespace Binary64

variable {x y z slack : Binary64}

/-! ## Counts of units not above two -/

/-- The nearest count of a value that is not above two is at most 2⁻⁵² away from it. -/
theorem nearestUnits_close (num : Nat) {den : Nat} (hden : 0 < den) (h : num ≤ den * (2 * unitsPerOne)) :
    2 ^ 52 * (nearestUnits num den * den) ≤ 2 ^ 52 * num + den * unitsPerOne ∧
      2 ^ 52 * num ≤ 2 ^ 52 * (nearestUnits num den * den) + den * unitsPerOne := by
  have hexp := unitExponent_bounds
  have hq : num / den < 2 ^ (unitExponent + 2) := by
    have hle : num / den ≤ 2 * unitsPerOne := Nat.div_le_of_le_mul h
    have hpow : 2 ^ (unitExponent + 2) = 4 * unitsPerOne := by
      rw [Nat.pow_add, unitsPerOne_eq]
      omega
    have hpos := unitsPerOne_pos
    omega
  have hlog := log2_lt_of_lt (Nat.succ_pos _) hq
  have hstep : 2 ^ 51 * gridStep (num / den).log2 ≤ unitsPerOne := by
    rw [gridStep, ← Nat.pow_add, unitsPerOne_eq]
    exact Nat.pow_le_pow_right (by omega) (by omega)
  have hscaled := Nat.mul_le_mul_left den hstep
  rw [Nat.mul_left_comm] at hscaled
  obtain ⟨hbelow, habove⟩ := nearestUnits_near num hden
  omega

theorem three_lt_beyond : 3 * (unitsPerOne : Int) < beyond := by
  have hexp := unitExponent_bounds
  have hlog : (2 ^ (unitExponent + 2)).log2 = unitExponent + 2 := Nat.log2_two_pow
  have hgrid := gridStep_dvd_two_pow (Nat.le_of_eq hlog)
  have hrep : Representable (2 ^ (unitExponent + 2)) := ⟨by omega, Nat.mod_eq_zero_of_dvd hgrid⟩
  have hlt := natCast_lt_beyond hrep
  rw [Nat.pow_add, ← unitsPerOne_eq] at hlt
  have hpos := unitsPerOne_pos
  omega

theorem rank_ofUnits_natCast (n : Nat) : (ofUnits (n : Int)).rank = capped (nearestUnits n 1) := by
  rw [rank_ofUnits, if_neg (Int.not_lt.2 (Int.natCast_nonneg n)), Int.natAbs_natCast]

/-! ## Numbers of six places -/

theorem units_between_of_inUnit (h : x.inUnit = true) : 0 ≤ x.units ∧ x.units ≤ unitsPerOne := by
  have hrank := ((inUnit_iff_rank x).1 h).2
  rwa [rank_of_isFinite (isFinite_of_inUnit h)] at hrank

theorem units_ofRatio {num den : Nat} (h : Representable (nearestUnits num den)) :
    (ofRatio false num den).units = nearestUnits num den := by
  rw [ofRatio, ofMagnitude_eq_finite h, units]

/-- A number of six places between zero and one is some millionths, but for its rounding. -/
theorem exists_millionths_units (h : x.inUnit = true ∧ x.roundSix = x) :
    ∃ k : Nat, 2 ^ 52 * (x.units * 1000000) ≤ 2 ^ 52 * (k * unitsPerOne : Nat) + 1000000 * unitsPerOne ∧
      2 ^ 52 * (k * unitsPerOne : Nat) ≤ 2 ^ 52 * (x.units * 1000000) + 1000000 * unitsPerOne := by
  by_cases hneg : x = negZero
  · subst hneg
    have hzero : negZero.units = 0 := rfl
    rw [hzero]
    exact ⟨0, by omega, by omega⟩
  · obtain ⟨k, hk, heq⟩ := exists_millionths h.1 hneg
    rw [h.2] at heq
    have hmillion : 0 < 1000000 := by omega
    have hle := (nearestUnits_millionths hk).1
    have hunits := units_ofRatio (representable_of_le hle (gridStep_dvd_nearestUnits hmillion))
    rw [← heq] at hunits
    have hmul : k * unitsPerOne ≤ 1000000 * unitsPerOne := Nat.mul_le_mul_right _ hk
    obtain ⟨hbelow, habove⟩ := nearestUnits_close (k * unitsPerOne) hmillion (by omega)
    rw [hunits]
    exact ⟨k, by omega, by omega⟩

/-- A difference of two numbers of six places is not above a third one, but for rounding, or it is so by a millionth at least. -/
theorem units_gap (hx : x.inUnit = true ∧ x.roundSix = x) (hy : y.inUnit = true ∧ y.roundSix = y)
    (hz : z.inUnit = true ∧ z.roundSix = z) :
    2 ^ 52 * (x.units - y.units - z.units) ≤ 3 * unitsPerOne ∨
      2 ^ 52 * (unitsPerOne : Int) ≤ 1000000 * (2 ^ 52 * (x.units - y.units - z.units) + 3 * unitsPerOne) := by
  obtain ⟨i, hxlow, hxhigh⟩ := exists_millionths_units hx
  obtain ⟨j, hylow, hyhigh⟩ := exists_millionths_units hy
  obtain ⟨k, hzlow, hzhigh⟩ := exists_millionths_units hz
  rcases Nat.lt_or_ge (j + k) i with hijk | hijk
  · have hmul : (j + k + 1) * unitsPerOne ≤ i * unitsPerOne := Nat.mul_le_mul_right _ hijk
    rw [Nat.add_mul, Nat.add_mul] at hmul
    exact Or.inr (by omega)
  · have hmul : i * unitsPerOne ≤ (j + k) * unitsPerOne := Nat.mul_le_mul_right _ hijk
    rw [Nat.add_mul] at hmul
    exact Or.inl (by omega)

/-- What compares as rounded values that are not above two does not differ by more than rounding as exact values. -/
theorem le_add_of_rank_le {n m : Nat} (hn : n ≤ 2 * unitsPerOne) (hm : m ≤ 2 * unitsPerOne)
    (h : (ofUnits (n : Int)).rank ≤ (ofUnits (m : Int)).rank) : 2 ^ 52 * n ≤ 2 ^ 52 * m + 2 * unitsPerOne := by
  have hbeyond := three_lt_beyond
  have hlow := (nearestUnits_close n Nat.one_pos (by omega)).2
  have hhigh := (nearestUnits_close m Nat.one_pos (by omega)).1
  have hle : nearestUnits n 1 ≤ nearestUnits m 1 := by
    rw [rank_ofUnits_natCast, rank_ofUnits_natCast] at h
    unfold capped at h
    split at h <;> split at h <;> omega
  omega

/-- A difference of two numbers of six places that is not above a third one and a slack is so as an exact value, when the slack lies
between what rounding moves and what decimals differ by. -/
theorem units_sub_le_of_sub_le (hx : x.inUnit = true ∧ x.roundSix = x) (hy : y.inUnit = true ∧ y.roundSix = y)
    (hz : z.inUnit = true ∧ z.roundSix = z) (hslack : slack.isFinite = true)
    (hlarge : (unitsPerOne : Int) ≤ 1000000000000 * slack.units) (hsmall : 100000000 * slack.units ≤ unitsPerOne)
    (h : x - y ≤ z + slack) : x.units - y.units ≤ z.units + slack.units := by
  apply Int.not_lt.1
  intro hgt
  have hxu := units_between_of_inUnit hx.1
  have hyu := units_between_of_inUnit hy.1
  have hzu := units_between_of_inUnit hz.1
  have hrank := ((le_iff _ _).1 h).2.2
  rw [rank_sub (isFinite_of_inUnit hx.1) (isFinite_of_inUnit hy.1), rank_add (isFinite_of_inUnit hz.1) hslack] at hrank
  -- both sides are positive
  obtain ⟨n, hn⟩ := Int.eq_ofNat_of_zero_le (a := x.units - y.units) (by omega)
  obtain ⟨m, hm⟩ := Int.eq_ofNat_of_zero_le (a := z.units + slack.units) (by omega)
  rw [hn, hm] at hrank
  have hrounded := le_add_of_rank_le (by omega) (by omega) hrank
  have hpos := unitsPerOne_pos
  rcases units_gap hx hy hz with hgap | hgap
  · omega
  · omega

end Binary64

end TokenForest
