import TokenForest.Proofs.Binary64.CompensatedSum
import TokenForest.Proofs.Config.Valid

/-!
# Valid weights

What validation says about the exact values of the weights: none is negative, and their exact sum is one up to the tolerance. So no
weight is above two, and none of the sums made of them overflows.
-/

namespace TokenForest

namespace Binary64

theorem isFinite_abs {x : Binary64} (hx : x.isFinite = true) : (abs x).isFinite = true ∧ (abs x).units = x.units.natAbs := by
  cases x with
  | finite u hu => exact ⟨rfl, rfl⟩
  | negZero => rw [abs, zero_eq]; exact ⟨rfl, rfl⟩
  | _ => simp [isFinite] at hx

/-- A finite number equals zero when it has no units. -/
theorem sameValue_zero_iff {x : Binary64} (hx : x.isFinite = true) : x.sameValue 0 = true ↔ x.units = 0 := by
  have hle := le_iff_units hx isFinite_zero
  have hge := le_iff_units isFinite_zero hx
  have hzero : (0 : Binary64).units = 0 := by rw [zero_eq, units]
  rw [hzero] at hle hge
  rw [sameValue, Bool.and_eq_true]
  constructor
  · rintro ⟨hlow, hhigh⟩
    have h1 := hle.1 hlow
    have h2 := hge.1 hhigh
    omega
  · intro h
    exact ⟨hle.2 (by omega), hge.2 (by omega)⟩

end Binary64

namespace Weights

variable {w : Weights}

/-- The exact sum of the weights, in units. -/
def exactSum (w : Weights) : Int := w.alpha.units + w.beta.units + w.gamma.units + w.delta.units

theorem sumTolerance_spec : sumTolerance.isFinite = true ∧ 0 ≤ sumTolerance.units ∧
    999999 * sumTolerance.units ≤ Binary64.unitsPerOne := by decide +kernel

/-- A weight that passes its check is finite and not negative. -/
theorem of_checkWeight {name : String} {value : Binary64} (h : checkWeight name value = .ok ()) :
    value.isFinite = true ∧ 0 ≤ value.units := by
  unfold checkWeight at h
  split at h
  · cases h
  · rename_i hfinite
    split at h
    · cases h
    · rename_i hneg
      have hfin : value.isFinite = true := by simpa using hfinite
      have hle := (Binary64.not_lt (Binary64.ne_nan_of_isFinite hfin) (Binary64.ne_nan_of_isFinite Binary64.isFinite_zero)).1 hneg
      have hunits := (Binary64.le_iff_units Binary64.isFinite_zero hfin).1 hle
      rw [Binary64.zero_eq, Binary64.units] at hunits
      exact ⟨hfin, hunits⟩

/-- Valid weights are finite and not negative, and their sum is within the tolerance. -/
theorem of_validate (h : w.validate = .ok ()) : (∀ x ∈ w.toList, x.isFinite = true ∧ 0 ≤ x.units) ∧
    ¬sumTolerance < Binary64.abs (Binary64.compensatedSum w.toList - 1) := by
  unfold validate at h
  obtain ⟨_, halpha, h⟩ := ok_of_bind h
  obtain ⟨_, hbeta, h⟩ := ok_of_bind h
  obtain ⟨_, hgamma, h⟩ := ok_of_bind h
  obtain ⟨_, hdelta, h⟩ := ok_of_bind h
  simp only at h
  split at h
  · cases h
  · rename_i hsum
    refine ⟨?_, hsum⟩
    simp only [toList, List.mem_cons, List.not_mem_nil, or_false, forall_eq_or_imp, forall_eq]
    exact ⟨of_checkWeight halpha, of_checkWeight hbeta, of_checkWeight hgamma, of_checkWeight hdelta⟩

/-- The exact sum of valid weights is one, up to hardly more than a millionth. -/
theorem exactSum_near (h : w.validate = .ok ()) : 999000 * ((w.exactSum - Binary64.unitsPerOne).natAbs : Int) ≤ Binary64.unitsPerOne := by
  obtain ⟨hweights, hsum⟩ := of_validate h
  obtain ⟨htol, htol0, hsmall⟩ := sumTolerance_spec
  have hone := Binary64.rank_of_isFinite Binary64.isFinite_one
  rw [Binary64.rank_one] at hone
  have hbelow := hweights
  simp only [toList, List.mem_cons, List.not_mem_nil, or_false, forall_eq_or_imp, forall_eq] at hbelow
  rcases Binary64.compensatedSum_near hweights with hinf | ⟨hfinite, hnear⟩
  · -- an infinite sum is not within the tolerance
    rw [toList, hinf, (Binary64.sub_infinite Binary64.isFinite_one).1] at hsum
    have hbetween := Binary64.units_between sumTolerance
    have hlt : sumTolerance < Binary64.posInf := by
      rw [Binary64.lt_iff, Binary64.rank_of_isFinite htol, Binary64.rank]
      exact ⟨Binary64.ne_nan_of_isFinite htol, by simp, hbetween.2⟩
    exact absurd hlt hsum
  · rw [← toList] at hfinite hnear
    generalize Binary64.compensatedSum w.toList = total at hsum hfinite hnear
    have hdiff : (total - 1).isFinite = true := by
      rcases Int.le_total total.units (1 : Binary64).units with hle | hle
      · exact Binary64.isFinite_sub hfinite Binary64.isFinite_one Binary64.isFinite_one (by omega)
      · exact Binary64.isFinite_sub hfinite Binary64.isFinite_one hfinite (by omega)
    have hrounded := Binary64.sub_relative hfinite Binary64.isFinite_one hdiff
    obtain ⟨habs, hunits⟩ := Binary64.isFinite_abs hdiff
    have hle := (Binary64.not_lt (Binary64.ne_nan_of_isFinite htol) (Binary64.ne_nan_of_isFinite habs)).1 hsum
    rw [Binary64.le_iff_units habs htol, hunits] at hle
    unfold exactSum
    omega

/-- Valid weights as natural numbers of units, with their sum. -/
theorem exists_units (h : w.validate = .ok ()) : ∃ a b g d : Nat, w.alpha.units = a ∧ w.beta.units = b ∧ w.gamma.units = g ∧
    w.delta.units = d ∧ 999000 * (a + b + g + d) ≤ 999001 * Binary64.unitsPerOne ∧
    998999 * Binary64.unitsPerOne ≤ 999000 * (a + b + g + d) := by
  have hnear := exactSum_near h
  obtain ⟨hweights, _⟩ := of_validate h
  simp only [toList, List.mem_cons, List.not_mem_nil, or_false, forall_eq_or_imp, forall_eq] at hweights
  obtain ⟨⟨_, halpha⟩, ⟨_, hbeta⟩, ⟨_, hgamma⟩, _, hdelta⟩ := hweights
  unfold exactSum at hnear
  exact ⟨w.alpha.units.natAbs, w.beta.units.natAbs, w.gamma.units.natAbs, w.delta.units.natAbs, by omega, by omega, by omega, by omega,
    by omega, by omega⟩

end Weights

end TokenForest
