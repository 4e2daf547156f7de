import TokenForest.Proofs.Binary64.RelativeError

/-!
# Products and quotients

Products and quotients of numbers that are not negative: the number nearest to the exact value, whichever of the two zeros stands in
it. So products are monotone, and where the exact values are known to be small the error of a product is at most 2⁻⁵².
-/

namespace TokenForest

namespace Binary64

variable {x y z : Binary64}

/-- A number that is not negative has a minus sign at most at zero. -/
theorem units_of_isNegative (hx : 0 ≤ x.units) (h : x.isNegative = true) : x.units = 0 := by
  cases x with
  | finite u hu =>
    rw [isNegative, decide_eq_true_iff] at h
    rw [units] at hx
    omega
  | _ => rfl

/-- The sign of a zero does not show in its rank. -/
theorem rank_ofRatio {negative : Bool} {num den : Nat} (hden : 0 < den) (h : negative = true → num = 0) :
    (ofRatio negative num den).rank = capped (nearestUnits num den) := by
  rw [ofRatio, rank_ofMagnitude negative (gridStep_dvd_nearestUnits hden)]
  split
  · rename_i hneg
    have hzero : capped 0 = 0 := by
      have hpos := beyond_pos
      rw [capped, if_pos (by omega)]
      rfl
    rw [h hneg, nearestUnits_zero, hzero]
    rfl
  · rfl

/-- What the rank of a number that is nearest to a small value says about its units. -/
theorem units_of_rank_eq_capped {n : Nat} (hx : x ≠ nan) (h : x.rank = capped n) (hfin : x.isFinite = true ∨ (n : Int) < beyond) :
    x.isFinite = true ∧ x.units = n := by
  have hfinite : x.isFinite = true := by
    rcases hfin with hfin | hn
    · exact hfin
    · have hpos := beyond_pos
      apply isFinite_of_rank hx
      · rw [h, capped, if_pos hn]
        omega
      · rw [h, capped, if_pos hn]
        exact hn
  have hbetween := units_between x
  rw [rank_of_isFinite hfinite] at h
  unfold capped at h
  refine ⟨hfinite, ?_⟩
  split at h <;> omega

/-! ## Products -/

/-- A product of finite numbers that are not negative is nearest to the exact product. -/
theorem rank_mul (hx : x.isFinite = true) (hy : y.isFinite = true) (hx0 : 0 ≤ x.units) (hy0 : 0 ≤ y.units) :
    x * y ≠ nan ∧ (x * y).rank = capped (nearestUnits (x.units.natAbs * y.units.natAbs) unitsPerOne) := by
  have hmul : x * y = ofRatio (x.isNegative != y.isNegative) (x.units.natAbs * y.units.natAbs) unitsPerOne := by
    change x.mul y = _
    rw [mul, if_neg (not_or.2 ⟨ne_nan_of_isFinite hx, ne_nan_of_isFinite hy⟩), if_pos (by rw [hx, hy]; rfl)]
  have hsign : (x.isNegative != y.isNegative) = true → x.units.natAbs * y.units.natAbs = 0 := by
    intro hsign
    rw [Nat.mul_eq_zero]
    cases hxn : x.isNegative
    · have hyn : y.isNegative = true := by simpa [hxn] using hsign
      exact Or.inr (Int.natAbs_eq_zero.2 (units_of_isNegative hy0 hyn))
    · exact Or.inl (Int.natAbs_eq_zero.2 (units_of_isNegative hx0 hxn))
  rw [hmul]
  exact ⟨ofMagnitude_ne_nan _ _, rank_ofRatio unitsPerOne_pos hsign⟩

/-- Products are monotone in their second factor. -/
theorem mul_le_mul_left (hx : x.isFinite = true) (hy : y.isFinite = true) (hz : z.isFinite = true) (hx0 : 0 ≤ x.units)
    (hy0 : 0 ≤ y.units) (h : y.units ≤ z.units) : x * y ≤ x * z := by
  obtain ⟨hxy, hrank⟩ := rank_mul hx hy hx0 hy0
  obtain ⟨hxz, hrank'⟩ := rank_mul hx hz hx0 (Int.le_trans hy0 h)
  rw [le_iff, hrank, hrank']
  refine ⟨hxy, hxz, capped_mono (nearestUnits_mono unitsPerOne_pos (Nat.mul_le_mul_left _ ?_))⟩
  omega

/-- Products are monotone in their first factor. -/
theorem mul_le_mul_right (hx : x.isFinite = true) (hy : y.isFinite = true) (hz : z.isFinite = true) (hx0 : 0 ≤ x.units)
    (hy0 : 0 ≤ y.units) (h : y.units ≤ z.units) : y * x ≤ z * x := by
  obtain ⟨hyx, hrank⟩ := rank_mul hy hx hy0 hx0
  obtain ⟨hzx, hrank'⟩ := rank_mul hz hx (Int.le_trans hy0 h) hx0
  rw [le_iff, hrank, hrank']
  refine ⟨hyx, hzx, capped_mono (nearestUnits_mono unitsPerOne_pos (Nat.mul_le_mul_right _ ?_))⟩
  omega

/-- The nearest count to a value that is not above two is not above three. -/
theorem nearestUnits_le_three (num : Nat) {den : Nat} (hden : 0 < den) (h : num ≤ den * (2 * unitsPerOne)) :
    nearestUnits num den ≤ 3 * unitsPerOne := by
  obtain ⟨hbelow, _⟩ := nearestUnits_close num hden h
  have hscaled : nearestUnits num den * den ≤ 3 * unitsPerOne * den := by
    have hcomm : 3 * unitsPerOne * den = 3 * (den * unitsPerOne) := by rw [Nat.mul_assoc, Nat.mul_comm unitsPerOne]
    have hdouble : den * (2 * unitsPerOne) = 2 * (den * unitsPerOne) := Nat.mul_left_comm _ _ _
    omega
  exact Nat.le_of_mul_le_mul_right hscaled hden

/-- The number is close to an exact value in units of units, which is a product of units or a sum of such products. -/
structure Near (exact slack : Nat) (x : Binary64) : Prop where
  finite : x.isFinite = true
  units : ∃ n : Nat, x.units = n ∧ 2 ^ 52 * (n * unitsPerOne) ≤ 2 ^ 52 * exact + slack ∧
    2 ^ 52 * exact ≤ 2 ^ 52 * (n * unitsPerOne) + slack

/-- A product that is not above two is at most 2⁻⁵² away from the exact one. -/
theorem near_mul {a b : Nat} (hx : x.isFinite = true) (hy : y.isFinite = true) (ha : x.units = a) (hb : y.units = b)
    (h : a * b ≤ unitsPerOne * (2 * unitsPerOne)) : Near (a * b) (unitsPerOne * unitsPerOne) (x * y) := by
  obtain ⟨hnan, hrank⟩ := rank_mul hx hy (by omega) (by omega)
  rw [ha, hb, Int.natAbs_natCast, Int.natAbs_natCast] at hrank
  have hle := nearestUnits_le_three (a * b) unitsPerOne_pos h
  have hbeyond := three_lt_beyond
  obtain ⟨hfinite, hunits⟩ := units_of_rank_eq_capped hnan hrank (Or.inr (by omega))
  exact ⟨hfinite, _, hunits, nearestUnits_close (a * b) unitsPerOne_pos h⟩

/-- A sum that stays below two is at most 2⁻⁵² away from the exact one. -/
theorem add_close {n m : Nat} (hx : x.isFinite = true) (hy : y.isFinite = true) (hn : x.units = n) (hm : y.units = m)
    (h : n + m ≤ 2 * unitsPerOne) : ∃ s : Nat, (x + y).isFinite = true ∧ (x + y).units = s ∧
      2 ^ 52 * s ≤ 2 ^ 52 * (n + m) + unitsPerOne ∧ 2 ^ 52 * (n + m) ≤ 2 ^ 52 * s + unitsPerOne := by
  have hrank := rank_add hx hy
  rw [hn, hm, ← Int.natCast_add, rank_ofUnits_natCast] at hrank
  have hthree := nearestUnits_le_three (n + m) Nat.one_pos (by omega)
  have hbeyond := three_lt_beyond
  obtain ⟨hfinite, hunits⟩ := units_of_rank_eq_capped (add_ne_nan hx hy) hrank (Or.inr (by omega))
  obtain ⟨hnear, hnear'⟩ := nearestUnits_close (n + m) Nat.one_pos (by omega)
  rw [Nat.mul_one, Nat.one_mul] at hnear hnear'
  exact ⟨_, hfinite, hunits, hnear, hnear'⟩

/-- A sum that stays below two is nearly as close as its terms. -/
theorem Near.add {exact exact' slack slack' : Nat} (h : Near exact slack x) (h' : Near exact' slack' y)
    (hsum : 2 ^ 52 * (exact + exact') + slack + slack' ≤ 2 ^ 52 * (2 * unitsPerOne * unitsPerOne)) :
    Near (exact + exact') (slack + slack' + unitsPerOne * unitsPerOne) (x + y) := by
  obtain ⟨hx, n, hn, hbelow, habove⟩ := h
  obtain ⟨hy, m, hm, hbelow', habove'⟩ := h'
  have hadd := Nat.add_mul n m unitsPerOne
  have hle : n + m ≤ 2 * unitsPerOne := Nat.le_of_mul_le_mul_right (by omega) unitsPerOne_pos
  obtain ⟨s, hfinite, hunits, hnear, hnear'⟩ := add_close hx hy hn hm hle
  -- in units of units
  have hscaled := Nat.mul_le_mul_right unitsPerOne hnear
  have hscaled' := Nat.mul_le_mul_right unitsPerOne hnear'
  rw [Nat.add_mul, Nat.mul_assoc, Nat.mul_assoc, Nat.add_mul] at hscaled hscaled'
  exact ⟨hfinite, s, hunits, by omega, by omega⟩

/-! ## Quotients -/

/-- A quotient of a finite number that is not negative by a positive one is nearest to the exact quotient. -/
theorem rank_div {a b : Nat} (hx : x.isFinite = true) (hy : y.isFinite = true) (ha : x.units = a) (hb : y.units = b) (hpos : 0 < b) :
    x / y ≠ nan ∧ (x / y).rank = capped (nearestUnits (a * unitsPerOne) b) := by
  have hdiv : x / y = ofRatio (x.isNegative != y.isNegative) (x.units.natAbs * unitsPerOne) y.units.natAbs := by
    change x.div y = _
    rw [div, if_neg (not_or.2 ⟨ne_nan_of_isFinite hx, ne_nan_of_isFinite hy⟩), if_pos (by rw [hx, hy]; rfl), if_neg (by omega)]
  have hyn : y.isNegative = false := by
    apply Bool.eq_false_iff.2
    intro hneg
    have hzero := units_of_isNegative (by omega) hneg
    omega
  have hsign : (x.isNegative != y.isNegative) = true → x.units.natAbs * unitsPerOne = 0 := by
    intro hsign
    have hxn : x.isNegative = true := by simpa [hyn] using hsign
    rw [units_of_isNegative (by omega) hxn, Int.natAbs_zero, Nat.zero_mul]
  have hrank := rank_ofRatio (by omega : 0 < y.units.natAbs) hsign
  rw [← hdiv, ha, hb, Int.natAbs_natCast, Int.natAbs_natCast] at hrank
  refine ⟨?_, hrank⟩
  rw [hdiv]
  exact ofMagnitude_ne_nan _ _

/-- A finite quotient by a positive number is at most 2⁻⁵³ of the exact quotient away from it, or half a unit. -/
theorem div_relative {a b : Nat} (hx : x.isFinite = true) (hy : y.isFinite = true) (ha : x.units = a) (hb : y.units = b)
    (hpos : 0 < b) (h : (x / y).isFinite = true) : ∃ q : Nat, (x / y).units = q ∧
      2 ^ 53 * (q * b) ≤ 2 ^ 53 * (a * unitsPerOne) + a * unitsPerOne + 2 ^ 52 * b ∧
      2 ^ 53 * (a * unitsPerOne) ≤ 2 ^ 53 * (q * b) + a * unitsPerOne + 2 ^ 52 * b := by
  obtain ⟨hnan, hrank⟩ := rank_div hx hy ha hb hpos
  exact ⟨_, (units_of_rank_eq_capped hnan hrank (Or.inl h)).2, nearestUnits_relative (a * unitsPerOne) hpos⟩

/-- A quotient by a positive number is finite or infinite with a plus sign. -/
theorem div_finite_or {a b : Nat} (hx : x.isFinite = true) (hy : y.isFinite = true) (ha : x.units = a) (hb : y.units = b)
    (hpos : 0 < b) : (x / y).isFinite = true ∨ x / y = posInf := by
  obtain ⟨hnan, hrank⟩ := rank_div hx hy ha hb hpos
  have hnonneg := capped_nonneg (nearestUnits (a * unitsPerOne) b)
  have hbeyond := beyond_pos
  rcases cases_isFinite (x / y) with ⟨hfin, _⟩ | hinf | hneg | hn
  · exact Or.inl hfin
  · exact Or.inr hinf
  · rw [hneg, rank] at hrank
    omega
  · exact absurd hn hnan

end Binary64

end TokenForest
