import TokenForest.Proofs.Binary64.Order

/-!
# Rounding is monotone

A larger exact value never rounds to a smaller number. Rounding to the nearest count of units keeps a value between the
powers of two around it, which settles the case in which two values round on different grids. From this, sums and differences
of finite numbers are monotone in each term.
-/

namespace TokenForest

namespace Binary64

/-! ## The nearest integer -/

theorem div_le_roundHalfEven (num den : Nat) : num / den ≤ roundHalfEven num den := by
  simp only [roundHalfEven]
  repeat' split
  all_goals omega

theorem roundHalfEven_le_div_succ (num den : Nat) : roundHalfEven num den ≤ num / den + 1 := by
  simp only [roundHalfEven]
  repeat' split
  all_goals omega

/-- A greater numerator never rounds to a smaller quotient. -/
theorem roundHalfEven_mono {m n den : Nat} (h : m ≤ n) : roundHalfEven m den ≤ roundHalfEven n den := by
  have hle : m / den ≤ n / den := Nat.div_le_div_right h
  rcases Nat.lt_or_eq_of_le hle with hq | hq
  · have h1 := roundHalfEven_le_div_succ m den
    have h2 := div_le_roundHalfEven n den
    omega
  · -- on one quotient the remainders are in the order of the numerators
    have hm := Nat.div_add_mod m den
    have hn := Nat.div_add_mod n den
    rw [hq] at hm
    have hr : m % den ≤ n % den := by omega
    simp only [roundHalfEven, hq]
    repeat' split
    all_goals omega

/-- An exact quotient is its own nearest integer. -/
theorem roundHalfEven_mul (k : Nat) {den : Nat} (h : 0 < den) : roundHalfEven (k * den) den = k := by
  simp [roundHalfEven, Nat.mul_div_cancel _ h, h]

/-! ## The nearest count of units -/

theorem roundHalfEven_mul_left {k : Nat} (hk : 0 < k) (num den : Nat) : roundHalfEven (k * num) (k * den) = roundHalfEven num den := by
  have hlow : 2 * (k * (num % den)) < k * den ↔ 2 * (num % den) < den := by
    rw [Nat.mul_left_comm, Nat.mul_lt_mul_left hk]
  have hhigh : k * den < 2 * (k * (num % den)) ↔ den < 2 * (num % den) := by
    rw [Nat.mul_left_comm, Nat.mul_lt_mul_left hk]
  unfold roundHalfEven
  simp only [Nat.mul_div_mul_left num den hk, Nat.mul_mod_mul_left, hlow, hhigh]

/-- The distance of two neighbouring counts of units around a value with this binary logarithm. -/
def gridStep (log : Nat) : Nat := 2 ^ (log - 52)

theorem gridStep_pos (log : Nat) : 0 < gridStep log := Nat.two_pow_pos _

/-- A power of two not below the step of a grid is on the grid. -/
theorem gridStep_dvd_two_pow {log k : Nat} (h : log ≤ k) : gridStep log ∣ 2 ^ k :=
  Nat.pow_dvd_pow 2 (by omega)

theorem nearestUnits_eq (num den : Nat) :
    nearestUnits num den =
      roundHalfEven num (den * gridStep (num / den).log2) * gridStep (num / den).log2 := rfl

theorem nearestUnits_zero (den : Nat) : nearestUnits 0 den = 0 := by simp [nearestUnits, roundHalfEven]

/-- The nearest count of units belongs to the value, not to the fraction that it is given by. -/
theorem nearestUnits_mul_left {k : Nat} (hk : 0 < k) (num den : Nat) : nearestUnits (k * num) (k * den) = nearestUnits num den := by
  rw [nearestUnits_eq, nearestUnits_eq, Nat.mul_div_mul_left num den hk, Nat.mul_assoc, roundHalfEven_mul_left hk]

/-- A point of the grid around a value that the value does not exceed is not exceeded by the nearest count either. -/
theorem nearestUnits_le {num den k : Nat} (hden : 0 < den) (hk : gridStep (num / den).log2 ∣ k) (h : num ≤ k * den) :
    nearestUnits num den ≤ k := by
  obtain ⟨j, rfl⟩ := hk
  have hpos := gridStep_pos (num / den).log2
  have hj : num ≤ j * (den * gridStep (num / den).log2) := by
    calc num ≤ gridStep (num / den).log2 * j * den := h
      _ = j * (den * gridStep (num / den).log2) := by ac_rfl
  rw [nearestUnits_eq, Nat.mul_comm (gridStep _) j]
  apply Nat.mul_le_mul_right
  calc roundHalfEven num (den * gridStep (num / den).log2)
      ≤ roundHalfEven (j * (den * gridStep (num / den).log2)) (den * gridStep (num / den).log2) := roundHalfEven_mono hj
    _ = j := roundHalfEven_mul j (Nat.mul_pos hden hpos)

/-- A point of the grid around a value that is not above the value is not above the nearest count either. -/
theorem le_nearestUnits {num den k : Nat} (hden : 0 < den) (hk : gridStep (num / den).log2 ∣ k) (h : k * den ≤ num) :
    k ≤ nearestUnits num den := by
  obtain ⟨j, rfl⟩ := hk
  have hpos := gridStep_pos (num / den).log2
  have hj : j * (den * gridStep (num / den).log2) ≤ num := by
    calc j * (den * gridStep (num / den).log2) = gridStep (num / den).log2 * j * den := by ac_rfl
      _ ≤ num := h
  rw [nearestUnits_eq, Nat.mul_comm (gridStep _) j]
  apply Nat.mul_le_mul_right
  calc j = roundHalfEven (j * (den * gridStep (num / den).log2)) (den * gridStep (num / den).log2) :=
        (roundHalfEven_mul j (Nat.mul_pos hden hpos)).symm
    _ ≤ roundHalfEven num (den * gridStep (num / den).log2) := roundHalfEven_mono hj

/-- The nearest count of units is at most the power of two above the value. -/
theorem nearestUnits_le_two_pow {num den : Nat} (hden : 0 < den) :
    nearestUnits num den ≤ 2 ^ ((num / den).log2 + 1) := by
  apply nearestUnits_le hden (gridStep_dvd_two_pow (by omega))
  have hq : num / den < 2 ^ ((num / den).log2 + 1) := Nat.lt_log2_self
  exact Nat.le_of_lt ((Nat.div_lt_iff_lt_mul hden).1 hq)

/-- The nearest count of units is at least the power of two below a value of at least one unit. -/
theorem two_pow_le_nearestUnits {num den : Nat} (hden : 0 < den) (h : num / den ≠ 0) :
    2 ^ (num / den).log2 ≤ nearestUnits num den := by
  apply le_nearestUnits hden (gridStep_dvd_two_pow (Nat.le_refl _))
  exact (Nat.le_div_iff_mul_le hden).1 (Nat.log2_self_le h)

/-- A greater value never has a smaller nearest count of units. -/
theorem nearestUnits_mono {m n den : Nat} (hden : 0 < den) (h : m ≤ n) : nearestUnits m den ≤ nearestUnits n den := by
  have hq : m / den ≤ n / den := Nat.div_le_div_right h
  have hlog : (m / den).log2 ≤ (n / den).log2 := by
    by_cases h0 : m / den = 0
    · simp [h0]
    · have hn0 : n / den ≠ 0 := Nat.ne_of_gt (Nat.lt_of_lt_of_le (Nat.pos_of_ne_zero h0) hq)
      exact (Nat.le_log2 hn0).2 (Nat.le_trans (Nat.log2_self_le h0) hq)
  rcases Nat.lt_or_eq_of_le hlog with hlt | heq
  · -- on different grids a power of two stands between the results
    have hn0 : n / den ≠ 0 := by
      intro h0
      rw [h0] at hlt
      simp at hlt
    calc nearestUnits m den ≤ 2 ^ ((m / den).log2 + 1) := nearestUnits_le_two_pow hden
      _ ≤ 2 ^ (n / den).log2 := Nat.pow_le_pow_right (by omega) hlt
      _ ≤ nearestUnits n den := two_pow_le_nearestUnits hden hn0
  · rw [nearestUnits_eq, nearestUnits_eq, heq]
    exact Nat.mul_le_mul_right _ (roundHalfEven_mono h)

/-- The nearest count of units has at most 53 significant bits. -/
theorem gridStep_dvd_nearestUnits {num den : Nat} (hden : 0 < den) :
    gridStep (nearestUnits num den).log2 ∣ nearestUnits num den := by
  have hself : gridStep (num / den).log2 ∣ nearestUnits num den := Nat.dvd_mul_left _ _
  by_cases h0 : num / den = 0
  · have h1 : nearestUnits num den ≤ 2 ^ ((num / den).log2 + 1) := nearestUnits_le_two_pow hden
    rw [h0] at h1
    have h2 : (nearestUnits num den).log2 ≤ 1 := by
      by_cases hn : nearestUnits num den = 0
      · simp [hn]
      · exact Nat.le_of_lt_succ ((Nat.log2_lt hn).2 (Nat.lt_of_le_of_lt h1 (by simp)))
    have h3 : gridStep (nearestUnits num den).log2 = 1 := by
      simp [gridStep, Nat.sub_eq_zero_of_le (Nat.le_trans h2 (by omega : 1 ≤ 52))]
    rw [h3]
    exact Nat.one_dvd _
  · have hle : nearestUnits num den ≤ 2 ^ ((num / den).log2 + 1) := nearestUnits_le_two_pow hden
    rcases Nat.lt_or_eq_of_le hle with hlt | heq
    · have hge := two_pow_le_nearestUnits hden h0
      have hlog : (nearestUnits num den).log2 = (num / den).log2 := by
        have hn : nearestUnits num den ≠ 0 := by
          have := Nat.two_pow_pos (num / den).log2
          omega
        exact (Nat.log2_eq_iff hn).2 ⟨hge, hlt⟩
      rw [hlog]
      exact hself
    · rw [heq, Nat.log2_two_pow]
      exact gridStep_dvd_two_pow (Nat.le_refl _)

/-! ## Numbers of a nearest count -/

/-- A count of units held below the rank of infinity. -/
def capped (n : Nat) : Int := if (n : Int) < beyond then n else beyond

theorem capped_mono {m n : Nat} (h : m ≤ n) : capped m ≤ capped n := by
  unfold capped
  split <;> split <;> omega

theorem capped_nonneg (n : Nat) : 0 ≤ capped n := by
  have := beyond_pos
  unfold capped
  split <;> omega

/-- The rank of a count of units with at most 53 significant bits: the count, or infinity where it is too large. -/
theorem rank_ofMagnitude (negative : Bool) {n : Nat} (h : gridStep n.log2 ∣ n) :
    (ofMagnitude negative n).rank = if negative then -capped n else capped n := by
  by_cases hr : Representable n
  · rw [capped, if_pos (natCast_lt_beyond hr)]
    cases negative
    · simp [ofMagnitude, hr, rank]
    · by_cases h0 : n = 0
      · simp [ofMagnitude, h0, rank, representable_zero]
      · simp [ofMagnitude, hr, h0, rank]
  · have hlog : 2098 ≤ n.log2 := Nat.not_lt.1 (fun hl => hr ⟨hl, Nat.mod_eq_zero_of_dvd h⟩)
    have hb : ¬(n : Int) < beyond := Int.not_lt.2 (beyond_le_natCast hlog)
    rw [capped, if_neg hb]
    cases negative <;> simp [ofMagnitude, hr, rank]

theorem ofMagnitude_ne_nan (negative : Bool) (n : Nat) : ofMagnitude negative n ≠ nan := by
  unfold ofMagnitude
  split
  · split
    · split <;> simp
    · simp
  · split <;> simp

theorem rank_ofUnits (n : Int) : (ofUnits n).rank =
    if n < 0 then -capped (nearestUnits n.natAbs 1) else capped (nearestUnits n.natAbs 1) := by
  rw [ofUnits, ofRatio, rank_ofMagnitude _ (gridStep_dvd_nearestUnits (by omega))]
  simp

/-- The number nearest to a greater integer count of units has no smaller rank. -/
theorem rank_ofUnits_mono {a b : Int} (h : a ≤ b) : (ofUnits a).rank ≤ (ofUnits b).rank := by
  rw [rank_ofUnits, rank_ofUnits]
  have ha := capped_nonneg (nearestUnits a.natAbs 1)
  have hb := capped_nonneg (nearestUnits b.natAbs 1)
  split
  · split
    · have hn : nearestUnits b.natAbs 1 ≤ nearestUnits a.natAbs 1 := nearestUnits_mono (by omega) (by omega)
      have := capped_mono hn
      omega
    · omega
  · split
    · omega
    · have hn : nearestUnits a.natAbs 1 ≤ nearestUnits b.natAbs 1 := nearestUnits_mono (by omega) (by omega)
      exact capped_mono hn

theorem ofUnits_ne_nan (n : Int) : ofUnits n ≠ nan := ofMagnitude_ne_nan _ _

theorem ofUnits_zero : ofUnits 0 = finite 0 representable_zero := by
  simp [ofUnits, ofRatio, nearestUnits, roundHalfEven, ofMagnitude, representable_zero]

theorem rank_ofUnits_zero : (ofUnits 0).rank = 0 := by
  rw [ofUnits_zero]
  rfl

theorem rank_zero : (0 : Binary64).rank = 0 := by
  rw [zero_eq]
  rfl

/-! ## Sums and differences -/

/-- A sum of finite numbers is the number nearest to the exact sum, unless both terms are negative zero. -/
theorem add_eq_ofUnits {x y : Binary64} (hx : x.isFinite = true) (hy : y.isFinite = true)
    (h : ¬(x = negZero ∧ y = negZero)) : x + y = ofUnits (x.units + y.units) := by
  change x.add y = _
  unfold add
  cases x with
  | finite u hu =>
    cases y with
    | finite v hv => rfl
    | negZero => rfl
    | _ => simp [isFinite] at hy
  | negZero =>
    cases y with
    | finite v hv => rfl
    | negZero => simp at h
    | _ => simp [isFinite] at hy
  | _ => simp [isFinite] at hx

/-- The rank of a sum of finite numbers is that of the number nearest to the exact sum. -/
theorem rank_add {x y : Binary64} (hx : x.isFinite = true) (hy : y.isFinite = true) :
    (x + y).rank = (ofUnits (x.units + y.units)).rank := by
  by_cases h : x = negZero ∧ y = negZero
  · obtain ⟨rfl, rfl⟩ := h
    rfl
  · rw [add_eq_ofUnits hx hy h]

theorem add_ne_nan {x y : Binary64} (hx : x.isFinite = true) (hy : y.isFinite = true) : x + y ≠ nan := by
  by_cases h : x = negZero ∧ y = negZero
  · obtain ⟨rfl, rfl⟩ := h
    change negZero ≠ nan
    simp
  · rw [add_eq_ofUnits hx hy h]
    exact ofUnits_ne_nan _

theorem isFinite_neg {x : Binary64} (hx : x.isFinite = true) : (-x).isFinite = true ∧ (-x).units = -x.units := by
  change x.neg.isFinite = true ∧ x.neg.units = -x.units
  cases x with
  | finite u h =>
    by_cases h0 : u = 0
    · simp [neg, h0, isFinite, units]
    · simp [neg, h0, isFinite, units]
  | negZero => simp [neg, zero_eq, isFinite, units]
  | _ => simp [isFinite] at hx

theorem rank_sub {x y : Binary64} (hx : x.isFinite = true) (hy : y.isFinite = true) :
    (x - y).rank = (ofUnits (x.units - y.units)).rank := by
  obtain ⟨hf, hu⟩ := isFinite_neg hy
  change (x + -y).rank = _
  rw [rank_add hx hf, hu]
  rfl

theorem sub_ne_nan {x y : Binary64} (hx : x.isFinite = true) (hy : y.isFinite = true) : x - y ≠ nan :=
  add_ne_nan hx (isFinite_neg hy).1

/-- Sums are monotone in their first term. -/
protected theorem add_le_add_right {x y z : Binary64} (hx : x.isFinite = true) (hy : y.isFinite = true) (hz : z.isFinite = true)
    (h : x ≤ y) : x + z ≤ y + z := by
  rw [le_iff, rank_of_isFinite hx, rank_of_isFinite hy] at h
  rw [le_iff, rank_add hx hz, rank_add hy hz]
  exact ⟨add_ne_nan hx hz, add_ne_nan hy hz, rank_ofUnits_mono (by omega)⟩

/-- A smaller exact difference of finite numbers is not rounded to a greater one. -/
theorem sub_le_sub_of_units {x y z w : Binary64} (hx : x.isFinite = true) (hy : y.isFinite = true) (hz : z.isFinite = true)
    (hw : w.isFinite = true) (h : x.units - y.units ≤ z.units - w.units) : x - y ≤ z - w := by
  rw [le_iff, rank_sub hx hy, rank_sub hz hw]
  exact ⟨sub_ne_nan hx hy, sub_ne_nan hz hw, rank_ofUnits_mono h⟩

/-- Differences are monotone in their first term. -/
protected theorem sub_le_sub_right {x y z : Binary64} (hx : x.isFinite = true) (hy : y.isFinite = true) (hz : z.isFinite = true)
    (h : x ≤ y) : x - z ≤ y - z := by
  rw [le_iff_units hx hy] at h
  exact sub_le_sub_of_units hx hz hy hz (by omega)

/-- The difference to a number at least as great is at most zero. -/
protected theorem sub_nonpos {x y : Binary64} (hx : x.isFinite = true) (hy : y.isFinite = true) (h : x ≤ y) : x - y ≤ 0 := by
  rw [le_iff, rank_of_isFinite hx, rank_of_isFinite hy] at h
  have hm := rank_ofUnits_mono (a := x.units - y.units) (b := 0) (by omega)
  rw [rank_ofUnits_zero, ← rank_sub hx hy, ← rank_zero] at hm
  exact (le_iff _ _).2 ⟨sub_ne_nan hx hy, ne_nan_of_isFinite isFinite_zero, hm⟩

/-- A sum of numbers that are not negative is not negative. -/
protected theorem add_nonneg {x y : Binary64} (hx : x.isFinite = true) (hy : y.isFinite = true) (h : 0 ≤ x) (h' : 0 ≤ y) :
    0 ≤ x + y := by
  rw [le_iff, rank_zero, rank_of_isFinite hx] at h
  rw [le_iff, rank_zero, rank_of_isFinite hy] at h'
  have hm := rank_ofUnits_mono (a := 0) (b := x.units + y.units) (by omega)
  rw [rank_ofUnits_zero, ← rank_add hx hy, ← rank_zero] at hm
  exact (le_iff _ _).2 ⟨ne_nan_of_isFinite isFinite_zero, add_ne_nan hx hy, hm⟩

end Binary64

end TokenForest
