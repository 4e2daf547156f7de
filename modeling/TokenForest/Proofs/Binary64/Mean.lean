import TokenForest.Proofs.Binary64.Monotone
import TokenForest.Proofs.Binary64.PairwiseSum
import TokenForest.Proofs.Binary64.Products
import TokenForest.Proofs.Forest.Settled

/-!
# Means of settled numbers

A mean of numbers of six places that is rounded to six places does not fall below the least of them. This holds of the exact mean, and
of the one that is computed with rounded additions, as far as the number of terms is one that a machine can count.
-/

namespace TokenForest

namespace Binary64

variable {x : Binary64} {xs : List Binary64}

/-! ## Counts -/

theorem unitExponent_large : 53 ≤ unitExponent ∧ unitExponent + 65 < 2098 := by
  unfold unitExponent
  omega

theorem two_pow_le_unitsPerOne : 2 ^ 53 ≤ unitsPerOne := by
  rw [unitsPerOne_eq]
  exact Nat.pow_le_pow_right (by omega) unitExponent_large.1

/-- A count of ones that has 65 binary digits is a finite number. -/
theorem count_lt_beyond {n : Nat} (h : n < 2 ^ 65) : ((n * unitsPerOne : Nat) : Int) < beyond := by
  have hlog : (2 ^ (65 + unitExponent)).log2 = 65 + unitExponent := Nat.log2_two_pow
  have hexp := unitExponent_large
  have hrep : Representable (2 ^ (65 + unitExponent)) :=
    ⟨by omega, Nat.mod_eq_zero_of_dvd (gridStep_dvd_two_pow (Nat.le_of_eq hlog))⟩
  have hlt := natCast_lt_beyond hrep
  rw [Nat.pow_add, ← unitsPerOne_eq] at hlt
  have hle := Nat.mul_le_mul_right unitsPerOne (Nat.le_of_lt h)
  omega

/-- A positive count that a machine can hold, as a number. -/
theorem ofInt_count {n : Nat} (hpos : 0 < n) (h : n < 2 ^ 64) : (ofInt n).isFinite = true ∧ ∃ b : Nat, (ofInt n).units = b ∧ 0 < b ∧
    2 ^ 53 * b ≤ (2 ^ 53 + 1) * (n * unitsPerOne) := by
  have hofInt : ofInt n = ofRatio false (n * unitsPerOne) 1 := by
    unfold ofInt
    rw [Int.natAbs_natCast, decide_eq_false (by omega)]
  have hrank : (ofInt n).rank = capped (nearestUnits (n * unitsPerOne) 1) := by
    rw [hofInt]
    exact rank_ofRatio Nat.one_pos (by simp)
  have hnan : ofInt n ≠ nan := by
    rw [hofInt]
    exact ofMagnitude_ne_nan _ _
  obtain ⟨hbelow, habove⟩ := nearestUnits_one (n * unitsPerOne)
  have hunits := Nat.mul_pos hpos unitsPerOne_pos
  have hbeyond := count_lt_beyond (by omega : 2 * n < 2 ^ 65)
  rw [Nat.mul_assoc] at hbeyond
  obtain ⟨hfinite, hb⟩ := units_of_rank_eq_capped hnan hrank (Or.inr (by omega))
  exact ⟨hfinite, _, hb, by omega, by omega⟩

/-! ## Rounding a mean to six places -/

/-- A sum that loses few parts, over the count of its terms, is hardly below a number that no term is below. -/
theorem mean_close {n m total a b q one depth : Nat} (hn : 0 < n) (hone : 2 ^ 53 ≤ one) (hm : m ≤ one) (hdepth : depth ≤ 200)
    (htotal : n * m ≤ total) (hsum : 2 ^ 53 * total ≤ 2 ^ 53 * a + depth * total) (hcount : 2 ^ 53 * b ≤ (2 ^ 53 + 1) * (n * one))
    (hquotient : 2 ^ 53 * (a * one) ≤ 2 ^ 53 * (q * b) + a * one + 2 ^ 52 * b) : 2 ^ 40 * m ≤ 2 ^ 40 * q + one := by
  have hloss := Nat.mul_le_mul_right total hdepth
  -- everything in units of the count, in units of one
  have hscaled := Nat.mul_le_mul_right one (by omega : (2 ^ 53 - 200) * (n * m) ≤ 2 ^ 53 * a)
  have hcounted := Nat.mul_le_mul_right q hcount
  have hslack := Nat.mul_le_mul_left (n * one) hone
  have hbound := Nat.mul_le_mul_left (n * one) hm
  have hexact : n * m * one = n * one * m := Nat.mul_right_comm n m one
  rw [Nat.mul_assoc, Nat.mul_assoc _ a, hexact] at hscaled
  rw [Nat.mul_assoc, Nat.mul_assoc _ (n * one), Nat.mul_comm b q] at hcounted
  apply Nat.le_of_mul_le_mul_left (c := n * one) _ (Nat.mul_pos hn (by omega))
  rw [Nat.mul_add, Nat.mul_left_comm, Nat.mul_left_comm (n * one)]
  omega

/-- Millionths that a value is hardly below are not above the millionths nearest to the value. -/
theorem millionths_le {m q k r one : Nat} (hone : 0 < one) (hclose : 2 ^ 52 * (k * one) ≤ 2 ^ 52 * (m * 1000000) + 1000000 * one)
    (hq : 2 * (q * 1000000) ≤ 2 * (r * one) + one) (h : 2 ^ 40 * m ≤ 2 ^ 40 * q + one) : k ≤ r := by
  by_contra hlt
  have hstep := Nat.mul_le_mul_right one (by omega : r + 1 ≤ k)
  rw [Nat.add_mul, Nat.one_mul] at hstep
  omega

/-- What is hardly below a count of units of six places is not below it when it is rounded to six places. -/
theorem sixPlaces_le_sixPlaces {m q : Nat} (hm : m ≤ unitsPerOne) (hsettled : sixPlaces m = m)
    (h : 2 ^ 40 * m ≤ 2 ^ 40 * q + unitsPerOne) : sixPlaces m ≤ sixPlaces q := by
  have hmillion : 0 < 1000000 := by omega
  obtain ⟨_, hq⟩ := roundHalfEven_near (q * 1000000) unitsPerOne_pos
  obtain ⟨hk, _⟩ := roundHalfEven_near (m * 1000000) unitsPerOne_pos
  obtain ⟨_, hclose⟩ := nearestUnits_close (roundHalfEven (m * 1000000) unitsPerOne * unitsPerOne) hmillion (by omega)
  have hself : nearestUnits (roundHalfEven (m * 1000000) unitsPerOne * unitsPerOne) 1000000 = m := hsettled
  rw [hself] at hclose
  exact nearestUnits_mono hmillion (Nat.mul_le_mul_right _ (millionths_le unitsPerOne_pos hclose hq h))

/-- The rank of a number that is not negative, rounded to six places. -/
theorem rank_roundSix (hx : x.isFinite = true) (h : 0 ≤ x.units) : x.roundSix.rank = capped (sixPlaces x.units.natAbs) := by
  cases x with
  | finite u hu =>
    have hround : (finite u hu).roundSix =
        ofRatio (decide (u < 0)) (roundHalfEven (u.natAbs * 1000000) unitsPerOne * unitsPerOne) 1000000 := rfl
    rw [units] at h
    rw [hround, decide_eq_false (by omega)]
    exact rank_ofRatio (by omega) (by simp)
  | negZero =>
    have hbeyond : ((0 : Nat) : Int) < beyond := by
      rw [Int.natCast_zero]
      exact beyond_pos
    have hzero : negZero.units = 0 := rfl
    have hself : negZero.roundSix = negZero := rfl
    rw [hself, hzero, Int.natAbs_zero, sixPlaces_zero, rank, capped, if_pos hbeyond]
    rfl
  | _ => simp [isFinite] at hx

/-- The rank of a settled number is a count of units of six places. -/
theorem rank_settled {m : Binary64} (hm : m.Settled) : m.rank = capped (sixPlaces m.units.natAbs) := by
  rw [← rank_roundSix hm.isFinite (units_between_of_inUnit hm.1).1, hm.2]

/-- A mean that is hardly below a settled number is not below it when it is rounded. -/
theorem le_roundSix_of_close {m : Binary64} (hm : m.Settled) (hx : x.isFinite = true) (hx0 : 0 ≤ x.units)
    (h : 2 ^ 40 * m.units.natAbs ≤ 2 ^ 40 * x.units.natAbs + unitsPerOne) : m ≤ x.roundSix := by
  have hunits := units_between_of_inUnit hm.1
  have hself : m.units = sixPlaces m.units.natAbs := (congrArg units hm.2).symm.trans (units_roundSix hm.1)
  rw [le_iff, rank_settled hm, rank_roundSix hx hx0]
  exact ⟨hm.ne_nan, roundSix_ne_nan (ne_nan_of_isFinite hx), capped_mono (sixPlaces_le_sixPlaces (by omega) (by omega) h)⟩

/-! ## Means -/

/-- The exact total is at least that of as many numbers as the list has. -/
theorem mul_le_exactTotal {m : Binary64} (hm : m.Settled) (hxs : ∀ x ∈ xs, x.Settled) (h : ∀ x ∈ xs, m ≤ x) :
    xs.length * m.units.natAbs ≤ exactTotal xs := by
  induction xs with
  | nil => exact Nat.le_of_eq (Nat.zero_mul _)
  | cons x xs ih =>
    obtain ⟨hx, hrest⟩ := List.forall_mem_cons.1 hxs
    obtain ⟨hle, hfloor⟩ := List.forall_mem_cons.1 h
    have hunits := (le_iff_units hm.isFinite hx.isFinite).1 hle
    have hnonneg := units_between_of_inUnit hm.1
    have hih := ih hrest hfloor
    rw [List.length_cons, exactTotal_cons, Nat.add_mul, Nat.one_mul]
    omega

/-- An infinite number over a positive one is infinite. -/
theorem posInf_div {y : Binary64} {b : Nat} (hy : y.isFinite = true) (hb : y.units = b) (hpos : 0 < b) : posInf / y = posInf := by
  change posInf.div y = posInf
  cases y with
  | finite u hu =>
    rw [units] at hb
    have hnonneg : ¬u < 0 := by omega
    simp [div, isFinite, isNegative, hnonneg]
  | negZero =>
    have hzero : negZero.units = 0 := rfl
    omega
  | _ => simp [isFinite] at hy

/-- A rounded mean of settled numbers is not below the least of them. -/
theorem le_roundSix_mean {m : Binary64} (hm : m.Settled) (hxs : ∀ x ∈ xs, x.Settled) (h : ∀ x ∈ xs, m ≤ x) (hpos : 0 < xs.length)
    (hcount : xs.length < 2 ^ 64) : m ≤ (mean xs).roundSix := by
  have hinfinite : m ≤ posInf := by
    rw [le_iff, rank_of_isFinite hm.isFinite]
    exact ⟨hm.ne_nan, by simp, Int.le_of_lt (units_between m).2⟩
  have hnonneg : Nonneg xs := fun x hx => ⟨(hxs x hx).isFinite, (units_between_of_inUnit (hxs x hx).1).1⟩
  obtain ⟨hfinite, b, hb, hbpos, hbound⟩ := ofInt_count hpos hcount
  have hlog : xs.length.log2 < 64 := log2_lt_of_lt (by omega) hcount
  unfold mean
  rcases (pairwiseSum_loses hnonneg).mono (by omega : 131 + xs.length.log2 ≤ 200) with hinf | ⟨hsumfinite, a, ha, hloss⟩
  · -- an infinite sum has an infinite mean
    rw [hinf, posInf_div hfinite hb hbpos]
    exact hinfinite
  · rcases div_finite_or hsumfinite hfinite ha hb hbpos with hqfinite | hqinf
    · obtain ⟨q, hq, _, hquotient⟩ := div_relative hsumfinite hfinite ha hb hbpos hqfinite
      have hunits := units_between_of_inUnit hm.1
      refine le_roundSix_of_close hm hqfinite (by omega) ?_
      rw [hq, Int.natAbs_natCast]
      exact mean_close hpos two_pow_le_unitsPerOne (by omega) (Nat.le_refl 200) (mul_le_exactTotal hm hxs h) hloss hbound hquotient
    · rw [hqinf]
      exact hinfinite

/-- The millionths of settled numbers are as many times those of a number that none is below. -/
theorem mul_millionths_le_sum {m : Binary64} (hm : m.Settled) (hxs : ∀ x ∈ xs, x.Settled) (h : ∀ x ∈ xs, m ≤ x) :
    millionths m * xs.length ≤ (xs.map millionths).sum := by
  induction xs with
  | nil => exact Nat.le_refl 0
  | cons x xs ih =>
    obtain ⟨hx, hrest⟩ := List.forall_mem_cons.1 hxs
    obtain ⟨hle, hfloor⟩ := List.forall_mem_cons.1 h
    have hunits := (le_iff_units hm.isFinite hx.isFinite).1 hle
    have hnonneg := units_between_of_inUnit hm.1
    have hfirst : millionths m ≤ millionths x := roundHalfEven_mono (Nat.mul_le_mul_right _ (by omega))
    have hih := ih hrest hfloor
    rw [List.map_cons, List.sum_cons, List.length_cons, Nat.mul_add, Nat.mul_one]
    omega

/-- The exact mean of settled numbers is not below the least of them. -/
theorem le_exactMean {m : Binary64} (hm : m.Settled) (hxs : ∀ x ∈ xs, x.Settled) (h : ∀ x ∈ xs, m ≤ x) (hpos : 0 < xs.length) :
    m ≤ exactMean xs := by
  have hmillion : 0 < 1000000 := by omega
  have hmean : millionths m ≤ roundHalfEven (xs.map millionths).sum xs.length :=
    calc millionths m = roundHalfEven (millionths m * xs.length) xs.length := (roundHalfEven_mul _ hpos).symm
      _ ≤ _ := roundHalfEven_mono (mul_millionths_le_sum hm hxs h)
  have hrank : (exactMean xs).rank = capped (nearestUnits (roundHalfEven (xs.map millionths).sum xs.length * unitsPerOne) 1000000) :=
    rank_ofRatio hmillion (by simp)
  rw [le_iff, rank_settled hm, hrank]
  exact ⟨hm.ne_nan, ofMagnitude_ne_nan _ _, capped_mono (nearestUnits_mono hmillion (Nat.mul_le_mul_right _ hmean))⟩

/-- The exact mean does not depend on the order of the terms. -/
theorem exactMean_perm {ys : List Binary64} (h : xs.Perm ys) : exactMean xs = exactMean ys := by
  unfold exactMean
  rw [(h.map millionths).sum_nat, h.length_eq]

/-- A mean of settled numbers, the exact one or the computed one, is below a bound only where one of the numbers is. -/
theorem exists_lt_of_mean {y bound : Binary64} (hxs : ∀ x ∈ xs, x.Settled) (hne : xs ≠ [])
    (hy : y = (mean xs).roundSix ∧ xs.length < 2 ^ 64 ∨ y = exactMean xs) (h : y < bound) : ∃ x ∈ xs, x < bound := by
  by_contra hall
  have hbound : ∀ x ∈ xs, ¬x < bound := fun x hx hlt => hall ⟨x, hx, hlt⟩
  obtain ⟨first, rest, rfl⟩ := List.exists_cons_of_ne_nil hne
  have hmem := SyntaxTree.least_mem first rest
  have hfloor := SyntaxTree.least_le fun x hx => (hxs x hx).ne_nan
  have hmean : SyntaxTree.least first rest ≤ y := by
    rcases hy with ⟨rfl, hcount⟩ | rfl
    · exact le_roundSix_mean (hxs _ hmem) hxs hfloor (Nat.succ_pos _) hcount
    · exact le_exactMean (hxs _ hmem) hxs hfloor (Nat.succ_pos _)
  obtain ⟨hyne, hboundne, _⟩ := (lt_iff _ _).1 h
  have hleast := (Binary64.not_lt (hxs _ hmem).ne_nan hboundne).1 (hbound _ hmem)
  exact (Binary64.not_lt hyne hboundne).2 (Binary64.le_trans hleast hmean) h

end Binary64

end TokenForest
