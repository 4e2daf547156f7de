import TokenForest.Confidence
import TokenForest.Proofs.Binary64.SixPlaces

/-!
# The sign of zero

Which of the two zeros stands in a product or a sum shows at most in the sign of a zero result, and a number held to the interval
from 0 to 1 has lost it. So weights with the same key blend components to the same confidence.
-/

namespace TokenForest

namespace Binary64

variable {x y z : Binary64}

/-- The number is one of the two zeros. -/
def IsZero (x : Binary64) : Prop := x = finite 0 representable_zero ∨ x = negZero

/-- The two numbers are the same up to the sign of zero. -/
def Agree (x y : Binary64) : Prop := x = y ∨ x.IsZero ∧ y.IsZero

theorem agree_of_dropZeroSign (h : x.dropZeroSign = y.dropZeroSign) : x.Agree y := by
  have hzero := zero_eq
  cases x <;> cases y <;> simp_all [dropZeroSign, Agree, IsZero]

/-! ## Products -/

theorem isZero_ofRatio (negative : Bool) (den : Nat) : (ofRatio negative 0 den).IsZero := by
  unfold ofRatio ofMagnitude
  rw [nearestUnits_zero]
  cases negative
  · simp [representable_zero, IsZero]
  · simp [representable_zero, IsZero]

/-- Zero times a finite number is zero, and not-a-number times any other one. -/
theorem mul_of_isZero (h : x.IsZero) (z : Binary64) : if z.isFinite then (x * z).IsZero else x * z = nan := by
  change if z.isFinite then (x.mul z).IsZero else x.mul z = nan
  unfold mul
  rcases h with rfl | rfl <;> cases z <;> simp [isFinite, units, isZero_ofRatio]

theorem Agree.mul (h : x.Agree y) (z : Binary64) : (x * z).Agree (y * z) := by
  rcases h with rfl | ⟨hx, hy⟩
  · exact Or.inl rfl
  · have hxz := mul_of_isZero hx z
    have hyz := mul_of_isZero hy z
    cases hz : z.isFinite <;> simp only [hz, if_true, Bool.false_eq_true, if_false] at hxz hyz
    · exact Or.inl (hxz.trans hyz.symm)
    · exact Or.inr ⟨hxz, hyz⟩

/-! ## Sums -/

protected theorem add_comm (x y : Binary64) : x + y = y + x := by
  by_cases hfinite : x.isFinite = true ∧ y.isFinite = true
  · obtain ⟨hx, hy⟩ := hfinite
    by_cases hzero : x = negZero ∧ y = negZero
    · rw [hzero.1, hzero.2]
    · rw [add_eq_ofUnits hx hy hzero, add_eq_ofUnits hy hx (fun h => hzero h.symm), Int.add_comm]
  · cases x <;> cases y <;> first | simp [isFinite] at hfinite; done | rfl

theorem isFinite_of_isZero (h : x.IsZero) : x.isFinite = true ∧ x.units = 0 := by
  rcases h with rfl | rfl <;> exact ⟨rfl, rfl⟩

/-- A zero adds nothing to a number other than negative zero, and a zero to that. -/
theorem add_of_isZero (h : x.IsZero) (z : Binary64) :
    if z = negZero then (x + z).IsZero else x + z = if z.isFinite then ofUnits z.units else z := by
  obtain ⟨hfinite, hunits⟩ := isFinite_of_isZero h
  by_cases hz : z = negZero
  · rw [if_pos hz, hz]
    rcases h with rfl | rfl
    · rw [add_eq_ofUnits rfl rfl (by simp)]
      exact Or.inl ofUnits_zero
    · exact Or.inr rfl
  · rw [if_neg hz]
    cases hzf : z.isFinite
    · rcases h with rfl | rfl <;> cases z <;> first | rfl | simp [isFinite] at hzf
    · rw [if_pos rfl, add_eq_ofUnits hfinite hzf (fun hboth => hz hboth.2), hunits, Int.zero_add]

theorem Agree.add_left (h : x.Agree y) (z : Binary64) : (x + z).Agree (y + z) := by
  rcases h with rfl | ⟨hx, hy⟩
  · exact Or.inl rfl
  · have hxz := add_of_isZero hx z
    have hyz := add_of_isZero hy z
    by_cases hz : z = negZero <;> simp only [hz, if_true, if_false] at hxz hyz
    · rw [hz]
      exact Or.inr ⟨hxz, hyz⟩
    · exact Or.inl (hxz.trans hyz.symm)

theorem Agree.add {x' y' : Binary64} (h : x.Agree y) (h' : x'.Agree y') : (x + x').Agree (y + y') := by
  have hleft := h.add_left x'
  have hright := h'.add_left y
  rw [Binary64.add_comm x' y, Binary64.add_comm y' y] at hright
  rcases hleft with hleft | ⟨hx, hy⟩
  · rwa [hleft]
  · rcases hright with hright | ⟨_, hy'⟩
    · exact Or.inr ⟨hx, hright ▸ hy⟩
    · exact Or.inr ⟨hx, hy'⟩

/-! ## The interval from zero to one -/

/-- Either zero is held at zero. -/
theorem clampUnit_of_isZero (h : x.IsZero) : x.clampUnit = 0 := by
  have hrank : x.rank = 0 := by rcases h with rfl | rfl <;> rfl
  have hmin : min 1 x = x := by
    have hone : x < 1 := by
      rw [lt_iff]
      refine ⟨?_, ne_nan_of_isFinite isFinite_one, ?_⟩
      · rcases h with rfl | rfl <;> simp
      · rw [hrank, rank_one]
        exact Int.natCast_pos.2 unitsPerOne_pos
    unfold min
    rw [if_pos hone]
  unfold clampUnit
  rw [hmin]
  unfold max
  rw [if_neg]
  rw [lt_iff, rank_zero, hrank]
  simp

theorem Agree.clampUnit (h : x.Agree y) : x.clampUnit = y.clampUnit := by
  rcases h with rfl | ⟨hx, hy⟩
  · rfl
  · rw [clampUnit_of_isZero hx, clampUnit_of_isZero hy]

end Binary64

/-- Weights with the same key blend components alike. -/
theorem Components.blend_eq_of_key (c : Components) {w w' : Weights} (h : w.key = w'.key) : c.blend w = c.blend w' := by
  simp only [Weights.key, Weights.mk.injEq] at h
  obtain ⟨halpha, hbeta, hgamma, hdelta⟩ := h
  have hsum := ((((Binary64.agree_of_dropZeroSign halpha).mul c.lexical).add
    ((Binary64.agree_of_dropZeroSign hbeta).mul c.positional)).add
    ((Binary64.agree_of_dropZeroSign hgamma).mul c.typeConsistency)).add
    ((Binary64.agree_of_dropZeroSign hdelta).mul c.stageBinding)
  unfold blend
  rw [hsum.clampUnit]

end TokenForest
