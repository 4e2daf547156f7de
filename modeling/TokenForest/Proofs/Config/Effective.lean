import TokenForest.Config.Agreement
import TokenForest.Proofs.Binary64.Products
import TokenForest.Proofs.Config.Weights

/-!
# Effective weights

The weights that are applied: valid, the same when they are applied again, and without staging in the ratios of the stated ones, with
nothing for the stage.
-/

namespace TokenForest

open Binary64 (unitsPerOne unitsPerOne_pos)

/-- Quotients by one number that are rounded each have nearly equal cross products. -/
theorem cross_close {a b c p q one : Nat} (hc : 0 < c) (hp : 2 ^ 53 * (p * c) ≤ 2 ^ 53 * (a * one) + a * one + 2 ^ 52 * c)
    (hp' : 2 ^ 53 * (a * one) ≤ 2 ^ 53 * (p * c) + a * one + 2 ^ 52 * c)
    (hq : 2 ^ 53 * (q * c) ≤ 2 ^ 53 * (b * one) + b * one + 2 ^ 52 * c)
    (hq' : 2 ^ 53 * (b * one) ≤ 2 ^ 53 * (q * c) + b * one + 2 ^ 52 * c) :
    2 ^ 52 * (p * b) ≤ 2 ^ 52 * (q * a) + p * b + q * a + 2 ^ 52 * (a + b) ∧
      2 ^ 52 * (q * a) ≤ 2 ^ 52 * (p * b) + p * b + q * a + 2 ^ 52 * (a + b) := by
  have h1 := Nat.mul_le_mul_right b hp
  have h2 := Nat.mul_le_mul_right b hp'
  have h3 := Nat.mul_le_mul_right a hq
  have h4 := Nat.mul_le_mul_right a hq'
  have hexact : a * (one * b) = b * (one * a) := by ac_rfl
  simp only [Nat.add_mul, Nat.mul_assoc, hexact, Nat.mul_comm c] at h1 h2 h3 h4
  constructor
  · apply Nat.le_of_mul_le_mul_right (c := c) _ hc
    simp only [Nat.add_mul, Nat.mul_add, Nat.mul_assoc]
    omega
  · apply Nat.le_of_mul_le_mul_right (c := c) _ hc
    simp only [Nat.add_mul, Nat.mul_add, Nat.mul_assoc]
    omega

/-- Two numbers over the same number. -/
theorem Binary64.inRatio_div {x y r : Binary64} {a b c : Nat} (hx : x.isFinite = true) (hy : y.isFinite = true)
    (hr : r.isFinite = true) (ha : x.units = a) (hb : y.units = b) (hc : r.units = c) (hpos : 0 < c)
    (hxr : (x / r).isFinite = true) (hyr : (y / r).isFinite = true) : Binary64.InRatio x y (x / r) (y / r) := by
  obtain ⟨p, hp, hplow, hphigh⟩ := Binary64.div_relative hx hr ha hc hpos hxr
  obtain ⟨q, hq, hqlow, hqhigh⟩ := Binary64.div_relative hy hr hb hc hpos hyr
  obtain ⟨hlow, hhigh⟩ := cross_close hpos hplow hphigh hqlow hqhigh
  have hpb := Int.natCast_mul p b
  have hqa := Int.natCast_mul q a
  rw [InRatio, hp, hq, ha, hb, ← hpb, ← hqa]
  omega

namespace Weights

variable {w e : Weights} {staged : Bool}

/-- The weights that are applied are the stated ones, or these without that of the stage over what remains. -/
theorem effective_cases (h : w.effective staged = .ok e) : w.validate = .ok () ∧ ((staged = true ∨ w.delta.sameValue 0 = true) ∧ e = w ∨
    staged = false ∧ ¬w.alpha + w.beta + w.gamma ≤ sumTolerance ∧ e.validate = .ok () ∧
      e = ⟨w.alpha / (w.alpha + w.beta + w.gamma), w.beta / (w.alpha + w.beta + w.gamma), w.gamma / (w.alpha + w.beta + w.gamma), 0⟩) := by
  have hvalid := validate_of_effective h
  unfold effective at h
  obtain ⟨_, hw, h⟩ := ok_of_bind h
  refine ⟨hw, ?_⟩
  split at h
  · rename_i hsame
    cases h
    exact Or.inl ⟨by simpa using hsame, rfl⟩
  · rename_i hsame
    simp only at h
    split at h
    · cases h
    · rename_i hremaining
      obtain ⟨_, _, h⟩ := ok_of_bind h
      cases h
      have hoff : staged = false := Bool.eq_false_iff.2 (fun hon => hsame (by rw [hon, Bool.true_or]))
      exact Or.inr ⟨hoff, hremaining, hvalid, rfl⟩

/-- What remains of valid weights without that of the stage is a finite number. -/
theorem remaining_finite (h : w.validate = .ok ()) : (w.alpha + w.beta + w.gamma).isFinite = true := by
  obtain ⟨a, b, g, d, ha, hb, hg, _, hsum, _⟩ := exists_units h
  obtain ⟨hweights, _⟩ := of_validate h
  simp only [toList, List.mem_cons, List.not_mem_nil, or_false, forall_eq_or_imp, forall_eq] at hweights
  obtain ⟨⟨halpha, _⟩, ⟨hbeta, _⟩, ⟨hgamma, _⟩, _⟩ := hweights
  obtain ⟨s, hfinite, hs, hnear, _⟩ := Binary64.add_close halpha hbeta ha hb (by omega)
  obtain ⟨_, hfinite', _⟩ := Binary64.add_close hfinite hgamma hs hg (by omega)
  exact hfinite'

/-- What is above the tolerance is positive. -/
theorem remaining_pos {r : Binary64} (hr : r.isFinite = true) (h : ¬r ≤ sumTolerance) : 0 < r.units ∧ 0 < r := by
  obtain ⟨htol, htol0, _⟩ := sumTolerance_spec
  rw [Binary64.le_iff_units hr htol] at h
  rw [Binary64.lt_iff, Binary64.rank_zero, Binary64.rank_of_isFinite hr]
  exact ⟨by omega, Binary64.ne_nan_of_isFinite Binary64.isFinite_zero, Binary64.ne_nan_of_isFinite hr, by omega⟩

/-- Without staging nothing is left for the stage. -/
theorem delta_of_effective (h : w.effective false = .ok e) : e.delta.sameValue 0 = true := by
  obtain ⟨_, ⟨hsame, rfl⟩ | ⟨_, _, _, rfl⟩⟩ := effective_cases h
  · simpa using hsame
  · exact (Binary64.sameValue_zero_iff Binary64.isFinite_zero).2 (by rw [Binary64.zero_eq, Binary64.units])

/-- Weights that are applied stay as they are when they are applied again. -/
theorem effective_idem (h : w.effective staged = .ok e) : e.effective staged = .ok e := by
  have hvalid := validate_of_effective h
  have hkept : (staged || e.delta.sameValue 0) = true := by
    cases staged
    · rw [delta_of_effective h, Bool.or_true]
    · rfl
  rw [effective, hvalid]
  change (if (staged || e.delta.sameValue 0) = true then _ else _) = _
  rw [if_pos hkept]
  rfl

/-- Without staging the other weights keep their ratios. -/
theorem keepsRatios_of_effective (h : w.effective false = .ok e) : w.KeepsRatios e := by
  obtain ⟨hvalid, hcases⟩ := effective_cases h
  obtain ⟨a, b, g, _, ha, hb, hg, _⟩ := exists_units hvalid
  have hsame : ∀ x y : Binary64, 0 ≤ x.units → 0 ≤ y.units → Binary64.InRatio x y x y := by
    intro x y hx hy
    have hpos := Int.mul_nonneg hx hy
    rw [Binary64.InRatio, Int.mul_comm y.units, Int.sub_self]
    omega
  rcases hcases with ⟨_, rfl⟩ | ⟨_, hremaining, he, rfl⟩
  · exact ⟨Or.inl ⟨rfl, rfl, rfl⟩, hsame _ _ (by omega) (by omega), hsame _ _ (by omega) (by omega), hsame _ _ (by omega) (by omega)⟩
  · have hfinite := remaining_finite hvalid
    obtain ⟨hunits, hpos⟩ := remaining_pos hfinite hremaining
    generalize w.alpha + w.beta + w.gamma = r at *
    obtain ⟨hweights, _⟩ := of_validate hvalid
    obtain ⟨happlied, _⟩ := of_validate he
    simp only [toList, List.mem_cons, List.not_mem_nil, or_false, forall_eq_or_imp, forall_eq] at hweights happlied
    obtain ⟨⟨halpha, _⟩, ⟨hbeta, _⟩, ⟨hgamma, _⟩, _⟩ := hweights
    obtain ⟨⟨halpha', _⟩, ⟨hbeta', _⟩, ⟨hgamma', _⟩, _⟩ := happlied
    have hr : r.units = (r.units.natAbs : Int) := by omega
    exact ⟨Or.inr ⟨r, hfinite, hpos, rfl, rfl, rfl⟩,
      Binary64.inRatio_div halpha hbeta hfinite ha hb hr (by omega) halpha' hbeta',
      Binary64.inRatio_div halpha hgamma hfinite ha hg hr (by omega) halpha' hgamma',
      Binary64.inRatio_div hbeta hgamma hfinite hb hg hr (by omega) hbeta' hgamma'⟩

end Weights

end TokenForest
