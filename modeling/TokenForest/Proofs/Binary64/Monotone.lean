import TokenForest.Proofs.Binary64.Decimals
import TokenForest.Proofs.Binary64.ZeroSign

/-!
# Steps of a blend

Sums, holding a number to the interval from 0 to 1 and rounding it to six places are monotone, and rounding to six places moves a number
by hardly more than half a millionth.
-/

namespace TokenForest

namespace Binary64

variable {x y x' y' : Binary64}

/-- Sums are monotone in both terms. -/
protected theorem add_le_add (hx : x.isFinite = true) (hy : y.isFinite = true) (hx' : x'.isFinite = true) (hy' : y'.isFinite = true)
    (h : x ≤ x') (h' : y ≤ y') : x + y ≤ x' + y' := by
  rw [le_iff_units hx hx'] at h
  rw [le_iff_units hy hy'] at h'
  rw [le_iff, rank_add hx hy, rank_add hx' hy']
  exact ⟨add_ne_nan hx hy, add_ne_nan hx' hy', rank_ofUnits_mono (by omega)⟩

/-! ## Holding to the interval from 0 to 1 -/

/-- The rank of a number that is held to the interval. -/
theorem rank_clampUnit (hx : x ≠ nan) : x.clampUnit.rank = Max.max 0 (Min.min (unitsPerOne : Int) x.rank) := by
  have hmin : min 1 x ≠ nan ∧ (min 1 x).rank = Min.min (unitsPerOne : Int) x.rank := by
    have hone := rank_one
    unfold min
    split
    · rename_i h
      rw [lt_iff, rank_one] at h
      exact ⟨hx, by omega⟩
    · rename_i h
      rw [Binary64.not_lt hx one_ne_nan, le_iff, rank_one] at h
      exact ⟨one_ne_nan, by omega⟩
  have hzero := rank_zero
  unfold clampUnit max
  split
  · rename_i h
    rw [lt_iff, rank_zero] at h
    omega
  · rename_i h
    rw [Binary64.not_lt (ne_nan_of_isFinite isFinite_zero) hmin.1, le_iff, rank_zero] at h
    omega

/-- Holding numbers to the interval is monotone. -/
theorem clampUnit_mono (h : x ≤ y) : x.clampUnit ≤ y.clampUnit := by
  obtain ⟨hx, hy, hrank⟩ := (le_iff x y).1 h
  have hnan : ∀ z : Binary64, z.clampUnit ≠ nan := fun z => ne_nan_of_isFinite (isFinite_of_inUnit (inUnit_clampUnit z))
  rw [le_iff, rank_clampUnit hx, rank_clampUnit hy]
  exact ⟨hnan x, hnan y, by omega⟩

/-- A finite number in the interval, as a count of units. -/
theorem units_clampUnit (hx : x.isFinite = true) : x.clampUnit.units = Max.max 0 (Min.min (unitsPerOne : Int) x.units) := by
  rw [← rank_of_isFinite hx, ← rank_of_isFinite (isFinite_of_inUnit (inUnit_clampUnit x))]
  exact rank_clampUnit (ne_nan_of_isFinite hx)

/-! ## Six places -/

/-- The count of units nearest to the millionths that a count of units is nearest to. -/
def sixPlaces (n : Nat) : Nat := nearestUnits (roundHalfEven (n * 1000000) unitsPerOne * unitsPerOne) 1000000

theorem sixPlaces_mono {m n : Nat} (h : m ≤ n) : sixPlaces m ≤ sixPlaces n := by
  have hmillion : 0 < 1000000 := by omega
  exact nearestUnits_mono hmillion (Nat.mul_le_mul_right _ (roundHalfEven_mono (Nat.mul_le_mul_right _ h)))

theorem sixPlaces_zero : sixPlaces 0 = 0 := by
  have hround : roundHalfEven (0 * 1000000) unitsPerOne = 0 :=
    calc roundHalfEven (0 * 1000000) unitsPerOne = roundHalfEven (0 * unitsPerOne) unitsPerOne := by
          rw [Nat.zero_mul, Nat.zero_mul]
      _ = 0 := roundHalfEven_mul 0 unitsPerOne_pos
  rw [sixPlaces, hround, Nat.zero_mul, nearestUnits_zero]

/-- A number between 0 and 1 rounded to six places, as a count of units. -/
theorem units_roundSix (h : x.inUnit = true) : x.roundSix.units = sixPlaces x.units.natAbs := by
  have hfinite := isFinite_of_inUnit h
  cases x with
  | finite u hu =>
    obtain ⟨h0, _⟩ := units_of_inUnit h
    rw [roundSix_of_nonneg h0 hu]
    exact units_ofRatio (representable_roundSix hu)
  | negZero =>
    have hunits : negZero.units = 0 := rfl
    have hself : negZero.roundSix = negZero := rfl
    rw [hself, hunits, Int.natAbs_zero, sixPlaces_zero]
    rfl
  | _ => simp [isFinite] at hfinite

/-- Rounding to six places is monotone. -/
theorem roundSix_mono (hx : x.inUnit = true) (hy : y.inUnit = true) (h : x ≤ y) : x.roundSix ≤ y.roundSix := by
  have hx0 := (units_between_of_inUnit hx).1
  have hle := (le_iff_units (isFinite_of_inUnit hx) (isFinite_of_inUnit hy)).1 h
  rw [le_iff_units (isFinite_of_inUnit (inUnit_roundSix hx)) (isFinite_of_inUnit (inUnit_roundSix hy)), units_roundSix hx,
    units_roundSix hy]
  exact Int.ofNat_le.2 (sixPlaces_mono (by omega))

/-- Rounding a count of units that is not above one to six places moves it by half a millionth of one, or hardly more. -/
theorem sixPlaces_close {n : Nat} (h : n ≤ unitsPerOne) :
    2 ^ 52 * (1000000 * sixPlaces n) ≤ 2 ^ 52 * (1000000 * n) + (2 ^ 51 + 1000000) * unitsPerOne ∧
      2 ^ 52 * (1000000 * n) ≤ 2 ^ 52 * (1000000 * sixPlaces n) + (2 ^ 51 + 1000000) * unitsPerOne := by
  have hmillion : 0 < 1000000 := by omega
  obtain ⟨hbelow, habove⟩ := roundHalfEven_near (n * 1000000) unitsPerOne_pos
  obtain ⟨hnear, hnear'⟩ := nearestUnits_close (roundHalfEven (n * 1000000) unitsPerOne * unitsPerOne) hmillion (by omega)
  unfold sixPlaces
  omega

end Binary64

end TokenForest
