import TokenForest.Evaluation
import TokenForest.Proofs.Binary64.SixPlaces
import TokenForest.Proofs.Config.Valid
import TokenForest.Proofs.Forest.Settled

/-!
# Computed confidences are settled

A confidence is a blend that is held between 0 and 1 and rounded to six places, whatever the scorer says, so it is settled. The
thresholds that it is compared with are numbers, and none is below the general one.
-/

namespace TokenForest

/-! ## Thresholds -/

namespace Config

variable {c : Config}

/-- No threshold is below the general one. -/
theorem thetaMin_le_threshold (h : c.thetaMin ≠ .nan) (intent : Intent) : c.thetaMin ≤ c.threshold intent :=
  Binary64.le_max_left _ h

theorem threshold_ne_nan (h : c.thetaMin ≠ .nan) (intent : Intent) : c.threshold intent ≠ .nan :=
  Binary64.max_ne_nan _ h

/-- The general threshold of a valid configuration is a number. -/
theorem thetaMin_ne_nan (h : c.validate = .ok ()) : c.thetaMin ≠ .nan :=
  Binary64.ne_nan_of_isFinite (Binary64.isFinite_of_inUnit (valid_of_validate h).thetaMin)

end Config

/-! ## Confidences -/

/-- A blend of components is settled. -/
theorem Components.settled_blend (c : Components) (w : Weights) : (c.blend w).Settled := by
  unfold blend
  exact ⟨Binary64.inUnit_roundSix (Binary64.inUnit_clampUnit _), Binary64.roundSix_roundSix (Binary64.inUnit_clampUnit _)⟩

/-- What is combined is the blend. -/
theorem Components.combine_eq_ok {c : Components} {w : Weights} {psi : Binary64} (h : c.combine w = .ok psi) :
    psi = c.blend w := by
  unfold combine at h
  generalize c.blend w = x at h ⊢
  obtain ⟨_, _, h⟩ := ok_of_bind h
  cases h
  rfl

namespace Context

variable {c : Context} {s : Symbol} {p : Position} {b : Breakdown}

theorem settled_of_breakdownWith {weights : Weights} (h : c.breakdownWith weights s p = .ok b) : b.psi.Settled := by
  obtain ⟨components, _, h⟩ := ok_of_bind h
  obtain ⟨psi, hpsi, h⟩ := ok_of_bind h
  cases h
  have hsettled := components.settled_blend weights
  rw [← Components.combine_eq_ok (ok_of_mapError hpsi)] at hsettled
  exact hsettled

theorem settled_of_breakdown (h : c.breakdown s p = .ok b) : b.psi.Settled := by
  obtain ⟨weights, _, h⟩ := ok_of_bind h
  exact settled_of_breakdownWith h

end Context

end TokenForest
