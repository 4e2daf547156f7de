import TokenForest.Confidence
import TokenForest.Proofs.Binary64.Monotone
import TokenForest.Proofs.Binary64.Products
import TokenForest.Proofs.Config.Weights

/-!
# Blends

The blend of four components under valid weights: it is monotone in every component, and lies between the least and the greatest one
that has a weight, but for what the weights miss of one and for its last digit.
-/

namespace TokenForest

namespace Components

open Binary64 (unitsPerOne unitsPerOne_pos)

variable {c c' : Components} {w : Weights}

/-! ## The weighted sum -/

/-- The weighted sum before it is held to the interval and rounded. -/
def weightedSum (c : Components) (w : Weights) : Binary64 :=
  w.alpha * c.lexical + w.beta * c.positional + w.gamma * c.typeConsistency + w.delta * c.stageBinding

theorem blend_eq (c : Components) (w : Weights) : c.blend w = (c.weightedSum w).clampUnit.roundSix := rfl

theorem inUnit_of_mem {x : Binary64} (h : x ∈ c.toList) : x.inUnit = true := List.all_eq_true.1 c.inRange x h

/-- The exact weighted sum, in units of units. -/
def exactSum (c : Components) (w : Weights) : Nat :=
  w.alpha.units.natAbs * c.lexical.units.natAbs + w.beta.units.natAbs * c.positional.units.natAbs +
    w.gamma.units.natAbs * c.typeConsistency.units.natAbs + w.delta.units.natAbs * c.stageBinding.units.natAbs

/-- A component as a natural number of units. -/
theorem exists_units {x : Binary64} (h : x ∈ c.toList) : x.isFinite = true ∧ ∃ n : Nat, x.units = n ∧ n ≤ unitsPerOne := by
  have hunit := inUnit_of_mem h
  have hbetween := Binary64.units_between_of_inUnit hunit
  exact ⟨Binary64.isFinite_of_inUnit hunit, x.units.natAbs, by omega, by omega⟩

/-- The rounded weighted sum under valid weights is close to the exact one, and no sum on the way to it overflows. -/
theorem near_weightedSum (h : w.validate = .ok ()) (c : Components) :
    ((w.alpha * c.lexical).isFinite = true ∧ (w.beta * c.positional).isFinite = true ∧ (w.gamma * c.typeConsistency).isFinite = true ∧
      (w.delta * c.stageBinding).isFinite = true) ∧
    (w.alpha * c.lexical + w.beta * c.positional).isFinite = true ∧
    (w.alpha * c.lexical + w.beta * c.positional + w.gamma * c.typeConsistency).isFinite = true ∧
    Binary64.Near (c.exactSum w) (7 * (unitsPerOne * unitsPerOne)) (c.weightedSum w) := by
  obtain ⟨a, b, g, d, ha, hb, hg, hd, hsum, _⟩ := Weights.exists_units h
  obtain ⟨hweights, _⟩ := Weights.of_validate h
  simp only [Weights.toList, List.mem_cons, List.not_mem_nil, or_false, forall_eq_or_imp, forall_eq] at hweights
  obtain ⟨⟨halpha, _⟩, ⟨hbeta, _⟩, ⟨hgamma, _⟩, hdelta, _⟩ := hweights
  obtain ⟨hlexical, l, hl, hl1⟩ := exists_units (c := c) (x := c.lexical) (by simp [toList])
  obtain ⟨hpositional, p, hp, hp1⟩ := exists_units (c := c) (x := c.positional) (by simp [toList])
  obtain ⟨htype, t, ht, ht1⟩ := exists_units (c := c) (x := c.typeConsistency) (by simp [toList])
  obtain ⟨hstage, s, hs, hs1⟩ := exists_units (c := c) (x := c.stageBinding) (by simp [toList])
  -- all products together are hardly more than one
  have hscaled := Nat.mul_le_mul_right unitsPerOne hsum
  have hal := Nat.mul_le_mul_left a hl1
  have hbp := Nat.mul_le_mul_left b hp1
  have hgt := Nat.mul_le_mul_left g ht1
  have hds := Nat.mul_le_mul_left d hs1
  simp only [Nat.mul_add, Nat.add_mul, Nat.mul_assoc] at hscaled
  have hdouble : unitsPerOne * (2 * unitsPerOne) = 2 * (unitsPerOne * unitsPerOne) := Nat.mul_left_comm _ _ _
  have hdouble' : 2 * unitsPerOne * unitsPerOne = 2 * (unitsPerOne * unitsPerOne) := Nat.mul_assoc _ _ _
  have halphaNear := Binary64.near_mul halpha hlexical ha hl (by omega)
  have hbetaNear := Binary64.near_mul hbeta hpositional hb hp (by omega)
  have hgammaNear := Binary64.near_mul hgamma htype hg ht (by omega)
  have hdeltaNear := Binary64.near_mul hdelta hstage hd hs (by omega)
  have hfirst := halphaNear.add hbetaNear (by omega)
  have hsecond := hfirst.add hgammaNear (by omega)
  obtain ⟨hfinite, n, hn, hlow, hhigh⟩ := hsecond.add hdeltaNear (by omega)
  have hexact : c.exactSum w = a * l + b * p + g * t + d * s := by
    rw [exactSum, ha, hb, hg, hd, hl, hp, ht, hs]
    rfl
  rw [hexact]
  exact ⟨⟨halphaNear.finite, hbetaNear.finite, hgammaNear.finite, hdeltaNear.finite⟩, hfirst.finite, hsecond.finite, hfinite, n, hn,
    by omega, by omega⟩

/-! ## Monotone -/

/-- A valid weight times a component is monotone in the component. -/
theorem weight_mul_mono {x y z : Binary64} (hx : x.isFinite = true ∧ 0 ≤ x.units) (hy : y.inUnit = true) (hz : z.inUnit = true)
    (h : y ≤ z) : x * y ≤ x * z := by
  have hyfin := Binary64.isFinite_of_inUnit hy
  have hzfin := Binary64.isFinite_of_inUnit hz
  exact Binary64.mul_le_mul_left hx.1 hyfin hzfin hx.2 (Binary64.units_between_of_inUnit hy).1 ((Binary64.le_iff_units hyfin hzfin).1 h)

/-- Under valid weights the blend does not decrease when components increase. -/
theorem blend_mono (h : w.validate = .ok ()) (hle : c.Below c') : c.blend w ≤ c'.blend w := by
  obtain ⟨hweights, _⟩ := Weights.of_validate h
  obtain ⟨⟨ha, hb, hg, hd⟩, hfirst, hsecond, _⟩ := near_weightedSum h c
  obtain ⟨⟨ha', hb', hg', hd'⟩, hfirst', hsecond', _⟩ := near_weightedSum h c'
  have hunit : ∀ x ∈ c.toList, x.inUnit = true := fun x => inUnit_of_mem
  have hunit' : ∀ x ∈ c'.toList, x.inUnit = true := fun x => inUnit_of_mem
  simp only [Weights.toList, toList, List.mem_cons, List.not_mem_nil, or_false, forall_eq_or_imp, forall_eq] at hweights hunit hunit'
  obtain ⟨halpha, hbeta, hgamma, hdelta⟩ := hweights
  have hsum : c.weightedSum w ≤ c'.weightedSum w :=
    Binary64.add_le_add hsecond hd hsecond' hd'
      (Binary64.add_le_add hfirst hg hfirst' hg'
        (Binary64.add_le_add ha hb ha' hb' (weight_mul_mono halpha hunit.1 hunit'.1 hle.lexical)
          (weight_mul_mono hbeta hunit.2.1 hunit'.2.1 hle.positional))
        (weight_mul_mono hgamma hunit.2.2.1 hunit'.2.2.1 hle.typeConsistency))
      (weight_mul_mono hdelta hunit.2.2.2 hunit'.2.2.2 hle.stageBinding)
  rw [blend_eq, blend_eq]
  exact Binary64.roundSix_mono (Binary64.inUnit_clampUnit _) (Binary64.inUnit_clampUnit _) (Binary64.clampUnit_mono hsum)

/-! ## Between the components -/

theorem mem_weighted (h : w.validate = .ok ()) {p : Binary64 × Binary64} (hp : p ∈ w.toList.zip c.toList) (hne : p.1.units ≠ 0) :
    p.2 ∈ c.weighted w := by
  obtain ⟨hweights, _⟩ := Weights.of_validate h
  have hfinite := (hweights p.1 (List.of_mem_zip hp).1).1
  refine List.mem_map_of_mem (List.mem_filter.2 ⟨hp, ?_⟩)
  rw [Bool.not_eq_true', Bool.eq_false_iff]
  intro hzero
  exact hne ((Binary64.sameValue_zero_iff hfinite).1 hzero)

/-- The exact weighted sum lies between the sum of the weights times the bounds of the components that carry one. -/
theorem exactSum_between {lo hi : Nat}
    (h : ∀ p ∈ w.toList.zip c.toList, p.1.units ≠ 0 → lo ≤ p.2.units.natAbs ∧ p.2.units.natAbs ≤ hi) :
    (w.alpha.units.natAbs + w.beta.units.natAbs + w.gamma.units.natAbs + w.delta.units.natAbs) * lo ≤ c.exactSum w ∧
      c.exactSum w ≤ (w.alpha.units.natAbs + w.beta.units.natAbs + w.gamma.units.natAbs + w.delta.units.natAbs) * hi := by
  have hterm : ∀ p ∈ w.toList.zip c.toList, p.1.units.natAbs * lo ≤ p.1.units.natAbs * p.2.units.natAbs ∧
      p.1.units.natAbs * p.2.units.natAbs ≤ p.1.units.natAbs * hi := by
    intro p hp
    by_cases hzero : p.1.units = 0
    · rw [hzero, Int.natAbs_zero, Nat.zero_mul, Nat.zero_mul, Nat.zero_mul]
      exact ⟨Nat.le_refl 0, Nat.le_refl 0⟩
    · obtain ⟨hlow, hhigh⟩ := h p hp hzero
      exact ⟨Nat.mul_le_mul_left _ hlow, Nat.mul_le_mul_left _ hhigh⟩
  simp only [Weights.toList, toList, List.zip_cons_cons, List.zip_nil_right, List.mem_cons, List.not_mem_nil, or_false,
    forall_eq_or_imp, forall_eq] at hterm
  rw [exactSum, Nat.add_mul, Nat.add_mul, Nat.add_mul, Nat.add_mul, Nat.add_mul, Nat.add_mul]
  omega

/-- A sum of products close to an exact sum of weights that miss one by little lies hardly outside the bounds of the factors. -/
theorem bounds_of_near {one total exact n lo hi : Nat} (hone : 0 < one) (hsum : 999000 * total ≤ 999001 * one)
    (hsum' : 998999 * one ≤ 999000 * total) (hlow : 2 ^ 52 * (n * one) ≤ 2 ^ 52 * exact + 7 * (one * one))
    (hhigh : 2 ^ 52 * exact ≤ 2 ^ 52 * (n * one) + 7 * (one * one)) (hlo : total * lo ≤ exact) (hhi : exact ≤ total * hi)
    (hlo1 : lo ≤ one) (hhi1 : hi ≤ one) :
    999000 * 2 ^ 52 * n ≤ 999000 * 2 ^ 52 * hi + (2 ^ 52 + 6993000) * one ∧
      999000 * 2 ^ 52 * lo ≤ 999000 * 2 ^ 52 * n + (2 ^ 52 + 6993000) * one := by
  have hupper := Nat.mul_le_mul_right hi hsum
  have hlower := Nat.mul_le_mul_right lo hsum'
  have hhione := Nat.mul_le_mul_left one hhi1
  have hloone := Nat.mul_le_mul_left one hlo1
  rw [Nat.mul_assoc, Nat.mul_assoc] at hupper hlower
  constructor
  · apply Nat.le_of_mul_le_mul_right (c := one) _ hone
    rw [Nat.add_mul, Nat.mul_assoc _ n, Nat.mul_assoc _ hi, Nat.mul_comm hi one, Nat.mul_assoc _ one one]
    omega
  · apply Nat.le_of_mul_le_mul_right (c := one) _ hone
    rw [Nat.add_mul, Nat.mul_assoc _ n, Nat.mul_assoc _ lo, Nat.mul_comm lo one, Nat.mul_assoc _ one one]
    omega

/-- A blend under valid weights is at most two millionths outside the bounds of the components that carry a weight. -/
theorem blend_between (h : w.validate = .ok ()) {lo hi : Nat} (hlo : lo ≤ unitsPerOne) (hhi : hi ≤ unitsPerOne)
    (hbounds : ∀ x ∈ c.weighted w, lo ≤ x.units.natAbs ∧ x.units.natAbs ≤ hi) :
    1000000 * (lo : Int) ≤ 1000000 * (c.blend w).units + 2 * unitsPerOne ∧
      1000000 * (c.blend w).units ≤ 1000000 * (hi : Int) + 2 * unitsPerOne := by
  obtain ⟨a, b, g, d, ha, hb, hg, hd, hsum, hsum'⟩ := Weights.exists_units h
  obtain ⟨_, _, _, hfinite, n, hn, hlow, hhigh⟩ := near_weightedSum h c
  have hpairs : ∀ p ∈ w.toList.zip c.toList, p.1.units ≠ 0 → lo ≤ p.2.units.natAbs ∧ p.2.units.natAbs ≤ hi :=
    fun p hp hne => hbounds p.2 (mem_weighted h hp hne)
  obtain ⟨hlower, hupper⟩ := exactSum_between hpairs
  rw [ha, hb, hg, hd] at hlower hupper
  simp only [Int.natAbs_natCast] at hlower hupper
  obtain ⟨hbelow, habove⟩ := bounds_of_near unitsPerOne_pos hsum hsum' hlow hhigh hlower hupper hlo hhi
  have hclamped := Binary64.units_clampUnit hfinite
  rw [hn] at hclamped
  obtain ⟨hsix, hsix'⟩ := Binary64.sixPlaces_close (n := (c.weightedSum w).clampUnit.units.natAbs) (by omega)
  rw [blend_eq, Binary64.units_roundSix (Binary64.inUnit_clampUnit _)]
  omega

end Components

end TokenForest
