import TokenForest.Config
import TokenForest.Proofs.Binary64.SixPlaces
import TokenForest.Proofs.Outcomes

/-!
# Valid configurations

A configuration is validated when everything it states makes sense. The weights that are applied in place of the stated ones are
valid then, too.
-/

namespace TokenForest

/-- Weights that are applied are valid. -/
theorem Weights.validate_of_effective {w applied : Weights} {staged : Bool} (h : w.effective staged = .ok applied) :
    applied.validate = .ok () := by
  unfold effective at h
  obtain ⟨_, hvalid, h⟩ := ok_of_bind h
  split at h
  · cases h
    exact hvalid
  · simp only at h
    split at h
    · cases h
    · obtain ⟨_, hmade, h⟩ := ok_of_bind h
      cases h
      exact hmade

namespace Config

/-- Everything that a configuration states makes sense. -/
structure Valid (c : Config) : Prop where
  applied : ∃ w, c.weights.effective c.staging.enabled = .ok w
  thetaMin : c.thetaMin.inUnit = true
  thresholds : c.intentThresholds.forM (checkThreshold c.thetaMin) = .ok ()
  minimums : c.componentMinimums.forM checkMinimum = .ok ()
  tolerance : isTolerance c.equivalenceTolerance = true
  workers : 1 ≤ c.maxWorkers

/-- What has been validated is valid. -/
theorem valid_of_validate {c : Config} (h : c.validate = .ok ()) : c.Valid := by
  unfold validate at h
  obtain ⟨_, _, h⟩ := ok_of_bind h
  obtain ⟨w, hw, h⟩ := ok_of_bind h
  simp only at h
  split at h
  · cases h
  · rename_i htheta
    obtain ⟨_, hthresholds, h⟩ := ok_of_bind h
    obtain ⟨_, hminimums, h⟩ := ok_of_bind h
    split at h
    · cases h
    · rename_i htolerance
      split at h
      · cases h
      · rename_i hworkers
        exact ⟨⟨w, hw⟩, by simpa using htheta, hthresholds, hminimums, by simpa using htolerance, by omega⟩

/-- The weights that a valid configuration states are valid themselves. -/
theorem Valid.weights {c : Config} (h : c.Valid) : c.weights.validate = .ok () := by
  obtain ⟨w, hw⟩ := h.applied
  unfold Weights.effective at hw
  obtain ⟨_, hvalid, _⟩ := ok_of_bind hw
  exact hvalid

/-- A configuration is validated when it is valid. -/
theorem validate_eq_ok_iff {c : Config} : c.validate = .ok () ↔ c.Valid := by
  refine ⟨valid_of_validate, fun h => ?_⟩
  obtain ⟨w, hw⟩ := h.applied
  have hworkers : ¬c.maxWorkers < 1 := Int.not_lt.2 h.workers
  unfold validate
  simp only [h.weights, hw, h.thetaMin, h.thresholds, h.minimums, h.tolerance, hworkers, ok_bind]
  rfl

/-- A threshold for a known intent that lies between the general one and one passes its check. -/
theorem checkThreshold_eq_ok {floor theta : Binary64} {intent : Intent} (hknown : intent.isKnown = true) (hunit : theta.inUnit = true)
    (hfloor : floor ≤ theta) : checkThreshold floor (intent, theta) = .ok () := by
  obtain ⟨hfloor', htheta, _⟩ := (Binary64.le_iff floor theta).1 hfloor
  have hless : ¬theta < floor := (Binary64.not_lt htheta hfloor').2 hfloor
  simp [checkThreshold, hknown, hunit, hless]

/-- A valid configuration is valid with such a threshold, too. -/
theorem validate_with_threshold {c : Config} (h : c.validate = .ok ()) {intent : Intent} {theta : Binary64}
    (hknown : intent.isKnown = true) (hunit : theta.inUnit = true) (hfloor : c.thetaMin ≤ theta) :
    ({ c with intentThresholds := [(intent, theta)] } : Config).validate = .ok () := by
  refine validate_eq_ok_iff.2 { valid_of_validate h with thresholds := forM_eq_ok_iff.2 fun entry hentry => ?_ }
  rw [List.mem_singleton.1 hentry]
  exact checkThreshold_eq_ok hknown hunit hfloor

theorem validate_default : validate .default = .ok () := by decide +kernel

end Config

end TokenForest
