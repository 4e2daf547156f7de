import TokenForest.Proofs.Binary64.Rounding

/-!
# Rounding to six places

A number between 0 and 1 that has been rounded to six places stays as it is when it is rounded again: the grid of the format is so
fine there that the number nearest to a decimal lies within half a unit of the sixth place of it. Rounding a finite number gives a
finite number.
-/

namespace TokenForest

namespace Binary64

/-! ## How far rounding moves a value -/

/-- The nearest integer to a quotient is at most half a denominator away from the numerator. -/
theorem roundHalfEven_near (num : Nat) {den : Nat} (h : 0 < den) :
    2 * (roundHalfEven num den * den) ≤ 2 * num + den ∧ 2 * num ≤ 2 * (roundHalfEven num den * den) + den := by
  have hdiv : num / den * den + num % den = num := Nat.div_add_mod' num den
  have hmod : num % den < den := Nat.mod_lt _ h
  have hsucc : (num / den + 1) * den = num / den * den + den := Nat.succ_mul _ _
  simp only [roundHalfEven]
  split
  · omega
  · split
    · omega
    · rcases Nat.mod_two_eq_zero_or_one (num / den) with h2 | h2
      · rw [h2, Nat.add_zero]
        omega
      · rw [h2]
        omega

/-- The integer that a quotient is nearest to is its rounding. -/
theorem roundHalfEven_eq_of_near {num den k : Nat} (hlow : 2 * (k * den) < 2 * num + den)
    (hhigh : 2 * num < 2 * (k * den) + den) : roundHalfEven num den = k := by
  have hdiv : num / den * den + num % den = num := Nat.div_add_mod' num den
  rcases Nat.lt_or_ge num (k * den) with h | h
  · -- below the multiple the quotient is one less, and the rest is more than half
    cases k with
    | zero => simp at h
    | succ j =>
      have hsucc : (j + 1) * den = j * den + den := Nat.succ_mul j den
      have hq : num / den = j := Nat.div_eq_of_lt_le (by omega) (by omega)
      rw [hq] at hdiv
      simp only [roundHalfEven, hq]
      rw [if_neg (by omega), if_pos (by omega)]
  · have hsucc : (k + 1) * den = k * den + den := Nat.succ_mul k den
    have hq : num / den = k := Nat.div_eq_of_lt_le h (by omega)
    rw [hq] at hdiv
    simp only [roundHalfEven, hq]
    rw [if_pos (by omega)]

/-- The nearest count of units is at most half a step of the grid away from the value. -/
theorem nearestUnits_near (num : Nat) {den : Nat} (h : 0 < den) :
    2 * (nearestUnits num den * den) ≤ 2 * num + den * gridStep (num / den).log2 ∧
      2 * num ≤ 2 * (nearestUnits num den * den) + den * gridStep (num / den).log2 := by
  have hnear := roundHalfEven_near num (Nat.mul_pos h (gridStep_pos (num / den).log2))
  have heq : roundHalfEven num (den * gridStep (num / den).log2) * (den * gridStep (num / den).log2) =
      nearestUnits num den * den := by
    rw [nearestUnits_eq]
    ac_rfl
  rwa [heq] at hnear

/-! ## Between zero and one -/

/-- One is this power of two in units. -/
@[irreducible] def unitExponent : Nat := 1074

theorem one_in_units : unitsPerOne = 2 ^ unitExponent ∧ (1 : Binary64).rank = unitsPerOne := by decide +kernel

theorem unitsPerOne_eq : unitsPerOne = 2 ^ unitExponent := one_in_units.1

theorem unitExponent_bounds : 52 ≤ unitExponent ∧ unitExponent + 56 < 2098 := by
  unfold unitExponent
  omega

theorem unitsPerOne_pos : 0 < unitsPerOne := by
  rw [unitsPerOne_eq]
  exact Nat.two_pow_pos _

theorem rank_one : (1 : Binary64).rank = unitsPerOne := one_in_units.2

theorem one_ne_nan : (1 : Binary64) ≠ nan := ne_nan_of_isFinite isFinite_one

/-- Numbers between zero and one by their ranks. -/
theorem inUnit_iff_rank (x : Binary64) : x.inUnit = true ↔ x ≠ nan ∧ 0 ≤ x.rank ∧ x.rank ≤ unitsPerOne := by
  rw [inUnit_iff]
  constructor
  · rintro ⟨h0, h1⟩
    obtain ⟨_, hx, h0⟩ := (le_iff 0 x).1 h0
    obtain ⟨_, _, h1⟩ := (le_iff x 1).1 h1
    rw [rank_zero] at h0
    exact ⟨hx, h0, Int.le_trans h1 (Int.le_of_eq rank_one)⟩
  · rintro ⟨hx, h0, h1⟩
    refine ⟨(le_iff 0 x).2 ⟨ne_nan_of_isFinite isFinite_zero, hx, ?_⟩, (le_iff x 1).2 ⟨hx, one_ne_nan, ?_⟩⟩
    · rw [rank_zero]
      exact h0
    · exact Int.le_trans h1 (Int.le_of_eq rank_one.symm)

/-- A count of units below a power of two has a smaller binary logarithm. -/
theorem log2_lt_of_lt {n k : Nat} (hk : 0 < k) (h : n < 2 ^ k) : n.log2 < k := by
  by_cases h0 : n = 0
  · rw [h0]
    exact hk
  · exact (Nat.log2_lt h0).2 h

/-- A count of units that is not above one. -/
theorem log2_le_of_le_one {n : Nat} (h : n ≤ unitsPerOne) : n.log2 ≤ unitExponent := by
  apply Nat.le_of_lt_succ
  apply log2_lt_of_lt (Nat.succ_pos _)
  rw [unitsPerOne_eq] at h
  exact Nat.lt_of_le_of_lt h (Nat.pow_lt_pow_succ (by omega))

/-! ## Decimals with some places -/

/-- A decimal that has not too many places is the nearest count of units. -/
theorem ofScientific_eq (digits : Nat) {places : Nat} (h : places ≤ 400) :
    (OfScientific.ofScientific digits true places : Binary64) =
      ofMagnitude false (nearestUnits (digits * unitsPerOne) (Nat.pow 10 places)) := by
  cases places with
  | zero =>
    change ofDecimal false digits (.ofNat 0) = _
    unfold ofDecimal
    by_cases hdigits : digits = 0
    · simp [hdigits, nearestUnits_zero]
    · simp [hdigits, ofRatio]
  | succ e =>
    change ofDecimal false digits (.negSucc e) = _
    unfold ofDecimal
    simp only
    rw [if_neg (by omega)]
    rfl

theorem rank_ofScientific (digits : Nat) {places : Nat} (h : places ≤ 400) :
    (OfScientific.ofScientific digits true places : Binary64).rank =
      capped (nearestUnits (digits * unitsPerOne) (Nat.pow 10 places)) := by
  have hden : 0 < Nat.pow 10 places := Nat.pow_pos (by omega)
  rw [ofScientific_eq digits h, rank_ofMagnitude _ (gridStep_dvd_nearestUnits hden)]
  simp only [Bool.false_eq_true, if_false]

theorem ofScientific_ne_nan (digits : Nat) {places : Nat} (h : places ≤ 400) :
    (OfScientific.ofScientific digits true places : Binary64) ≠ nan := by
  rw [ofScientific_eq digits h]
  exact ofMagnitude_ne_nan _ _

/-- A decimal whose digits are at most the power of ten of its places lies between zero and one. -/
theorem inUnit_ofScientific {digits places : Nat} (h : places ≤ 400 ∧ digits ≤ Nat.pow 10 places) :
    (OfScientific.ofScientific digits true places : Binary64).inUnit = true := by
  have hden : 0 < Nat.pow 10 places := Nat.pow_pos (by omega)
  have hvalue : digits * unitsPerOne ≤ unitsPerOne * Nat.pow 10 places := by
    rw [Nat.mul_comm digits]
    exact Nat.mul_le_mul_left _ h.2
  have hgrid : gridStep (digits * unitsPerOne / Nat.pow 10 places).log2 ∣ unitsPerOne := by
    have hquotient : digits * unitsPerOne / Nat.pow 10 places ≤ unitsPerOne := by
      rw [Nat.mul_comm unitsPerOne] at hvalue
      exact Nat.div_le_of_le_mul hvalue
    have hlog := log2_le_of_le_one hquotient
    rw [unitsPerOne_eq] at hlog ⊢
    exact gridStep_dvd_two_pow hlog
  have hnearest := nearestUnits_le hden hgrid hvalue
  rw [inUnit_iff_rank, rank_ofScientific digits h.1]
  refine ⟨ofScientific_ne_nan digits h.1, capped_nonneg _, ?_⟩
  unfold capped
  split <;> omega

/-- Decimals are ordered as their values are. -/
theorem ofScientific_le {m p n q : Nat} (h : p ≤ 400 ∧ q ≤ 400 ∧ m * Nat.pow 10 q ≤ n * Nat.pow 10 p) :
    (OfScientific.ofScientific m true p : Binary64) ≤ OfScientific.ofScientific n true q := by
  obtain ⟨hp, hq, hle⟩ := h
  have hp0 : 0 < Nat.pow 10 p := Nat.pow_pos (by omega)
  have hq0 : 0 < Nat.pow 10 q := Nat.pow_pos (by omega)
  have hvalue (u : Nat) : Nat.pow 10 q * (m * u) ≤ Nat.pow 10 p * (n * u) := by
    calc Nat.pow 10 q * (m * u) = m * Nat.pow 10 q * u := by ac_rfl
      _ ≤ n * Nat.pow 10 p * u := Nat.mul_le_mul_right _ hle
      _ = Nat.pow 10 p * (n * u) := by ac_rfl
  have hnearest : nearestUnits (m * unitsPerOne) (Nat.pow 10 p) ≤ nearestUnits (n * unitsPerOne) (Nat.pow 10 q) := by
    rw [← nearestUnits_mul_left hq0, ← nearestUnits_mul_left hp0 (n * unitsPerOne), Nat.mul_comm (Nat.pow 10 p) (Nat.pow 10 q)]
    exact nearestUnits_mono (Nat.mul_pos hq0 hp0) (hvalue unitsPerOne)
  rw [le_iff, rank_ofScientific m hp, rank_ofScientific n hq]
  exact ⟨ofScientific_ne_nan m hp, ofScientific_ne_nan n hq, capped_mono hnearest⟩

/-- A value that is not above one is on a grid of which a step is a small part of one. -/
theorem million_mul_gridStep_lt {log : Nat} (h : log ≤ unitExponent) : 1000000 * gridStep log < unitsPerOne := by
  have hexp := unitExponent_bounds
  have hstep : gridStep log * 2 ^ 52 ≤ unitsPerOne := by
    rw [gridStep, ← Nat.pow_add, unitsPerOne_eq]
    exact Nat.pow_le_pow_right (by omega) (by omega)
  have hpos := gridStep_pos log
  omega

/-- The units of a number between zero and one are those of a natural number not above one. -/
theorem units_of_inUnit {u : Int} {hu : Representable u.natAbs} (h : (finite u hu).inUnit = true) :
    0 ≤ u ∧ u.natAbs ≤ unitsPerOne := by
  obtain ⟨_, h0, h1⟩ := (inUnit_iff_rank _).1 h
  simp only [rank] at h0 h1
  omega

/-- The count of units nearest to a number of millionths that is not above one. -/
theorem nearestUnits_millionths {k : Nat} (hk : k ≤ 1000000) :
    nearestUnits (k * unitsPerOne) 1000000 ≤ unitsPerOne ∧
      roundHalfEven (nearestUnits (k * unitsPerOne) 1000000 * 1000000) unitsPerOne = k := by
  have hle : k * unitsPerOne ≤ 1000000 * unitsPerOne := Nat.mul_le_mul_right _ hk
  have hq : k * unitsPerOne / 1000000 ≤ unitsPerOne := Nat.div_le_of_le_mul hle
  have hlog := log2_le_of_le_one hq
  have hgrid : gridStep (k * unitsPerOne / 1000000).log2 ∣ unitsPerOne := by
    rw [unitsPerOne_eq] at hlog ⊢
    exact gridStep_dvd_two_pow hlog
  have hmillion : 0 < 1000000 := by omega
  rw [Nat.mul_comm 1000000] at hle
  refine ⟨nearestUnits_le hmillion hgrid hle, ?_⟩
  -- the nearest count lies less than half of one away from the millionths, in units of a millionth
  have hnear := nearestUnits_near (k * unitsPerOne) hmillion
  have hstep := million_mul_gridStep_lt hlog
  exact roundHalfEven_eq_of_near (by omega) (by omega)

theorem representable_of_le {n : Nat} (h : n ≤ unitsPerOne) (hgrid : gridStep n.log2 ∣ n) : Representable n := by
  have hlog := log2_le_of_le_one h
  have hexp := unitExponent_bounds
  exact ⟨by omega, Nat.mod_eq_zero_of_dvd hgrid⟩

/-- Rounding a number that is not negative to six places is finding the number nearest to some millionths. -/
theorem roundSix_of_nonneg {u : Int} (hu : 0 ≤ u) (h : Representable u.natAbs) : (finite u h).roundSix =
    ofRatio false (roundHalfEven (u.natAbs * 1000000) unitsPerOne * unitsPerOne) 1000000 := by
  have hsign : decide (u < 0) = false := decide_eq_false (Int.not_lt.2 hu)
  calc (finite u h).roundSix
      = ofRatio (decide (u < 0)) (roundHalfEven (u.natAbs * 1000000) unitsPerOne * unitsPerOne) 1000000 := rfl
    _ = ofRatio false (roundHalfEven (u.natAbs * 1000000) unitsPerOne * unitsPerOne) 1000000 := by rw [hsign]

theorem ofMagnitude_eq_finite {n : Nat} (h : Representable n) : ofMagnitude false n = finite n h := by
  rw [ofMagnitude, dif_pos h]
  rfl

/-- A representable count of units not above one is a number between zero and one, and so is its rounding to six places. -/
theorem ofMagnitude_of_le {n : Nat} (h : Representable n) (hle : n ≤ unitsPerOne) :
    (ofMagnitude false n).inUnit = true ∧ (ofMagnitude false n).roundSix =
      ofRatio false (roundHalfEven (n * 1000000) unitsPerOne * unitsPerOne) 1000000 := by
  rw [ofMagnitude_eq_finite h]
  constructor
  · rw [inUnit_iff_rank]
    refine ⟨?_, Int.natCast_nonneg n, Int.ofNat_le.2 hle⟩
    intro hnan
    cases hnan
  · exact roundSix_of_nonneg (Int.natCast_nonneg n) h

/-- A number between zero and one, rounded to six places, is the number nearest to some millionths. -/
theorem exists_millionths {x : Binary64} (h : x.inUnit = true) (hneg : x ≠ negZero) :
    ∃ k ≤ 1000000, x.roundSix = ofRatio false (k * unitsPerOne) 1000000 := by
  have hfin := isFinite_of_inUnit h
  cases x with
  | finite u hu =>
    obtain ⟨h0, h1⟩ := units_of_inUnit h
    refine ⟨roundHalfEven (u.natAbs * 1000000) unitsPerOne, ?_, roundSix_of_nonneg h0 hu⟩
    calc roundHalfEven (u.natAbs * 1000000) unitsPerOne ≤ roundHalfEven (1000000 * unitsPerOne) unitsPerOne := by
          apply roundHalfEven_mono
          rw [Nat.mul_comm]
          exact Nat.mul_le_mul_left _ h1
      _ = 1000000 := roundHalfEven_mul _ unitsPerOne_pos
  | negZero => exact absurd rfl hneg
  | _ => simp [isFinite] at hfin

/-- The number nearest to some millionths lies between zero and one and is its own rounding to six places. -/
theorem roundSix_ofRatio {k : Nat} (hk : k ≤ 1000000) :
    (ofRatio false (k * unitsPerOne) 1000000).inUnit = true ∧
      (ofRatio false (k * unitsPerOne) 1000000).roundSix = ofRatio false (k * unitsPerOne) 1000000 := by
  obtain ⟨hle, hround⟩ := nearestUnits_millionths hk
  have hmillion : 0 < 1000000 := by omega
  have hrep := representable_of_le hle (gridStep_dvd_nearestUnits hmillion)
  obtain ⟨hunit, hsix⟩ := ofMagnitude_of_le hrep hle
  rw [hround] at hsix
  exact ⟨hunit, hsix⟩

/-- Rounding a number between zero and one to six places keeps it there. -/
theorem inUnit_roundSix {x : Binary64} (h : x.inUnit = true) : x.roundSix.inUnit = true := by
  by_cases hneg : x = negZero
  · subst hneg
    exact h
  · obtain ⟨k, hk, heq⟩ := exists_millionths h hneg
    rw [heq]
    exact (roundSix_ofRatio hk).1

/-- Rounding a number between zero and one to six places twice is rounding it once. -/
theorem roundSix_roundSix {x : Binary64} (h : x.inUnit = true) : x.roundSix.roundSix = x.roundSix := by
  by_cases hneg : x = negZero
  · subst hneg
    rfl
  · obtain ⟨k, hk, heq⟩ := exists_millionths h hneg
    rw [heq]
    exact (roundSix_ofRatio hk).2

/-- A number held to the interval from zero to one lies in it. -/
theorem inUnit_clampUnit (x : Binary64) : x.clampUnit.inUnit = true := by
  obtain ⟨hzero, hzero1⟩ := (inUnit_iff 0).1 inUnit_zero
  obtain ⟨_, hone⟩ := (inUnit_iff 1).1 inUnit_one
  have hmin : min 1 x ≠ nan ∧ min 1 x ≤ 1 := by
    rw [min]
    split
    · rename_i h
      rw [lt_iff] at h
      exact ⟨h.1, (le_iff _ _).2 ⟨h.1, h.2.1, Int.le_of_lt h.2.2⟩⟩
    · exact ⟨one_ne_nan, hone⟩
  rw [inUnit_iff, clampUnit, max]
  split
  · rename_i h
    rw [lt_iff] at h
    exact ⟨(le_iff _ _).2 ⟨h.1, h.2.1, Int.le_of_lt h.2.2⟩, hmin.2⟩
  · exact ⟨hzero, hzero1⟩

/-! ## Finite numbers -/

/-- A finite number whose units are no multiple of those in one is small. -/
theorem lt_of_not_dvd {n : Nat} (h : Representable n) (hdvd : ¬unitsPerOne ∣ n) : n < 2 ^ (unitExponent + 52) := by
  apply lt_two_pow_of_log2_lt
  apply Nat.lt_of_not_le
  intro hlog
  have hgrid : gridStep n.log2 ∣ n := Nat.dvd_of_mod_eq_zero h.2
  apply hdvd
  rw [unitsPerOne_eq]
  exact Nat.dvd_trans (Nat.pow_dvd_pow 2 (by omega)) hgrid

/-- A count of units that is a multiple of one is a whole number of millionths. -/
theorem roundHalfEven_of_dvd {n one : Nat} (hone : 0 < one) (hdvd : one ∣ n) :
    roundHalfEven (n * 1000000) one * one = n * 1000000 := by
  obtain ⟨j, rfl⟩ := hdvd
  have hmul : one * j * 1000000 = j * 1000000 * one := by ac_rfl
  rw [hmul, roundHalfEven_mul _ hone]

/-- A representable count of units is nearest to itself. -/
theorem nearestUnits_mul {n den : Nat} (hden : 0 < den) (h : Representable n) : nearestUnits (n * den) den = n := by
  have hgrid : gridStep (n * den / den).log2 ∣ n := by
    rw [Nat.mul_div_cancel _ hden]
    exact Nat.dvd_of_mod_eq_zero h.2
  exact Nat.le_antisymm (nearestUnits_le hden hgrid (Nat.le_refl _)) (le_nearestUnits hden hgrid (Nat.le_refl _))

/-- Rounding a small number to six places gives a small number. -/
theorem nearestUnits_of_lt {n : Nat} (h : n < 2 ^ (unitExponent + 52)) :
    nearestUnits (roundHalfEven (n * 1000000) unitsPerOne * unitsPerOne) 1000000 ≤ 2 ^ (unitExponent + 54) := by
  have hnear := (roundHalfEven_near (n * 1000000) unitsPerOne_pos).1
  have hone : unitsPerOne ≤ 2 ^ (unitExponent + 52) := by
    rw [unitsPerOne_eq]
    exact Nat.pow_le_pow_right (by omega) (by omega)
  have hpow : 2 ^ (unitExponent + 54) = 4 * 2 ^ (unitExponent + 52) := by
    rw [Nat.pow_add 2 unitExponent 54, Nat.pow_add 2 unitExponent 52]
    omega
  have hle : roundHalfEven (n * 1000000) unitsPerOne * unitsPerOne ≤ 2 ^ (unitExponent + 54) * 1000000 := by omega
  have hq : roundHalfEven (n * 1000000) unitsPerOne * unitsPerOne / 1000000 ≤ 2 ^ (unitExponent + 54) :=
    Nat.div_le_of_le_mul (by rwa [Nat.mul_comm 1000000])
  have hlog : (roundHalfEven (n * 1000000) unitsPerOne * unitsPerOne / 1000000).log2 < unitExponent + 55 :=
    log2_lt_of_lt (by omega) (Nat.lt_of_le_of_lt hq (Nat.pow_lt_pow_succ (by omega)))
  exact nearestUnits_le (by omega) (gridStep_dvd_two_pow (by omega)) hle

/-- The count of units of a finite number that was rounded to six places is that of a finite number. -/
theorem representable_roundSix {n : Nat} (h : Representable n) :
    Representable (nearestUnits (roundHalfEven (n * 1000000) unitsPerOne * unitsPerOne) 1000000) := by
  have hmillion : 0 < 1000000 := by omega
  by_cases hdvd : unitsPerOne ∣ n
  · rw [roundHalfEven_of_dvd unitsPerOne_pos hdvd, nearestUnits_mul hmillion h]
    exact h
  · have hexp := unitExponent_bounds
    have hle := nearestUnits_of_lt (lt_of_not_dvd h hdvd)
    have hlt := Nat.lt_of_le_of_lt hle (Nat.pow_lt_pow_succ (by omega))
    have hlog := log2_lt_of_lt (Nat.succ_pos _) hlt
    exact ⟨by omega, Nat.mod_eq_zero_of_dvd (gridStep_dvd_nearestUnits hmillion)⟩

theorem isFinite_ofMagnitude (negative : Bool) {n : Nat} (h : Representable n) : (ofMagnitude negative n).isFinite = true := by
  rw [ofMagnitude, dif_pos h]
  split
  · split <;> rfl
  · rfl

/-- Rounding a finite number to six places gives a finite number. -/
theorem isFinite_roundSix {x : Binary64} (h : x.isFinite = true) : x.roundSix.isFinite = true := by
  cases x with
  | finite u hu => exact isFinite_ofMagnitude _ (representable_roundSix hu)
  | negZero => rfl
  | _ => simp [isFinite] at h

/-- Rounding to six places makes no number into one that is not a number. -/
theorem roundSix_ne_nan {x : Binary64} (h : x ≠ nan) : x.roundSix ≠ nan := by
  cases x with
  | finite u hu => exact ne_nan_of_isFinite (isFinite_roundSix rfl)
  | nan => exact absurd rfl h
  | _ => nofun

end Binary64

end TokenForest
