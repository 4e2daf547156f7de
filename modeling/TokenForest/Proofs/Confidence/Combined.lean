import TokenForest.Proofs.Confidence.Blend
import TokenForest.Proofs.Confidence.Settled
import TokenForest.Proofs.Config.Effective

/-!
# Confidences under effective weights

Under the weights that are applied a confidence is a bounded monotone blend: it lies between 0 and 1 and hardly outside the components
that carry a weight, and grows with every component. Without staging the stage component carries none.
-/

namespace TokenForest

open Binary64 (unitsPerOne unitsPerOne_pos)

/-- The products of a zero with two finite numbers agree. -/
theorem Binary64.agree_mul_of_isZero {x y z : Binary64} (h : x.IsZero) (hy : y.isFinite = true) (hz : z.isFinite = true) :
    (x * y).Agree (x * z) := by
  have hxy := Binary64.mul_of_isZero h y
  have hxz := Binary64.mul_of_isZero h z
  rw [hy, if_pos rfl] at hxy
  rw [hz, if_pos rfl] at hxz
  exact Or.inr ⟨hxy, hxz⟩

/-- A finite number without units is one of the two zeros. -/
theorem Binary64.isZero_of_units {x : Binary64} (hx : x.isFinite = true) (h : x.units = 0) : x.IsZero := by
  cases x with
  | finite u hu =>
    rw [units] at h
    subst h
    exact Or.inl rfl
  | negZero => exact Or.inr rfl
  | _ => simp [isFinite] at hx

namespace Components

variable {c c' : Components} {w : Weights}

/-- Components combine under valid weights. -/
theorem combine_of_validate (h : w.validate = .ok ()) (c : Components) : c.combine w = .ok (c.blend w) := by
  rw [combine, h]
  rfl

/-- A stage component without a weight has no influence. -/
theorem blend_of_delta (h : w.validate = .ok ()) (hdelta : w.delta.sameValue 0 = true) (hlexical : c.lexical = c'.lexical)
    (hpositional : c.positional = c'.positional) (htype : c.typeConsistency = c'.typeConsistency) : c.blend w = c'.blend w := by
  obtain ⟨hweights, _⟩ := Weights.of_validate h
  have hfinite := (hweights w.delta (by simp [Weights.toList])).1
  have hzero := Binary64.isZero_of_units hfinite ((Binary64.sameValue_zero_iff hfinite).1 hdelta)
  have hstage := (exists_units (c := c) (x := c.stageBinding) (by simp [toList])).1
  have hstage' := (exists_units (c := c') (x := c'.stageBinding) (by simp [toList])).1
  have hsum : (c.weightedSum w).Agree (c'.weightedSum w) := by
    unfold weightedSum
    rw [hlexical, hpositional, htype]
    exact Binary64.Agree.add (Or.inl rfl) (Binary64.agree_mul_of_isZero hzero hstage hstage')
  rw [blend_eq, blend_eq, hsum.clampUnit]

/-- Of valid weights one at least is not zero. -/
theorem weighted_ne_nil (h : w.validate = .ok ()) (c : Components) : c.weighted w ≠ [] := by
  intro hnil
  have hzero : ∀ p ∈ w.toList.zip c.toList, p.1.units = 0 := by
    intro p hp
    by_contra hne
    have hmem := mem_weighted h hp hne
    rw [hnil] at hmem
    cases hmem
  simp only [Weights.toList, toList, List.zip_cons_cons, List.zip_nil_right, List.mem_cons, List.not_mem_nil, or_false,
    forall_eq_or_imp, forall_eq] at hzero
  obtain ⟨a, b, g, d, ha, hb, hg, hd, _, hsum⟩ := Weights.exists_units h
  have hone := unitsPerOne_pos
  omega

theorem inUnit_of_weighted {x : Binary64} (h : x ∈ c.weighted w) : x.inUnit = true := by
  obtain ⟨p, hp, rfl⟩ := List.mem_map.1 h
  exact inUnit_of_mem (List.of_mem_zip (List.mem_filter.1 hp).1).2

theorem spansNearly_blend (h : w.validate = .ok ()) (c : Components) : c.SpansNearly w (c.blend w) := by
  obtain ⟨first, rest, hweighted⟩ := List.exists_cons_of_ne_nil (weighted_ne_nil h c)
  have hunit : ∀ x ∈ first :: rest, x.inUnit = true := fun x hx => inUnit_of_weighted (hweighted ▸ hx)
  have hnan : ∀ x ∈ first :: rest, x ≠ .nan := fun x hx => Binary64.ne_nan_of_isFinite (Binary64.isFinite_of_inUnit (hunit x hx))
  have hlo := SyntaxTree.least_mem first rest
  have hleast := SyntaxTree.least_le hnan
  obtain ⟨hhi, hgreatest⟩ := Binary64.foldl_max hnan
  generalize SyntaxTree.least first rest = lo at hlo hleast
  generalize rest.foldl Binary64.max first = hi at hhi hgreatest
  have hlobetween := Binary64.units_between_of_inUnit (hunit lo hlo)
  have hhibetween := Binary64.units_between_of_inUnit (hunit hi hhi)
  have hbounds : ∀ x ∈ c.weighted w, lo.units.natAbs ≤ x.units.natAbs ∧ x.units.natAbs ≤ hi.units.natAbs := by
    rw [hweighted]
    intro x hx
    have hxfin := Binary64.isFinite_of_inUnit (hunit x hx)
    have hlow := (Binary64.le_iff_units (Binary64.isFinite_of_inUnit (hunit lo hlo)) hxfin).1 (hleast x hx)
    have hhigh := (Binary64.le_iff_units hxfin (Binary64.isFinite_of_inUnit (hunit hi hhi))).1 (hgreatest x hx)
    omega
  obtain ⟨hlow, hhigh⟩ := blend_between h (by omega) (by omega) hbounds
  refine ⟨lo, hweighted ▸ hlo, hi, hweighted ▸ hhi, ?_, by omega, by omega⟩
  rw [hweighted]
  exact fun x hx => ⟨hleast x hx, hgreatest x hx⟩

end Components

/-- Weights that are applied are valid and stay as they are when they are applied again. Without staging nothing is left for the
stage, which has no influence then, and the others keep their ratios. Under them all components combine to a number between 0 and 1
that grows with every component and is at most two millionths outside those that carry a weight. -/
theorem Weights.effective_blends {w e : Weights} {staged : Bool} (h : w.effective staged = .ok e) :
    e.validate = .ok () ∧ e.effective staged = .ok e ∧
    (staged = false → e.delta.sameValue 0 = true ∧ w.KeepsRatios e ∧ ∀ c c' : Components, c.lexical = c'.lexical →
      c.positional = c'.positional → c.typeConsistency = c'.typeConsistency → c.combine e = c'.combine e) ∧
    ∀ c : Components, ∃ psi, c.combine e = .ok psi ∧ psi.inUnit = true ∧ c.SpansNearly e psi ∧
      ∀ c', c.Below c' → ∃ psi', c'.combine e = .ok psi' ∧ psi ≤ psi' := by
  have hvalid := validate_of_effective h
  refine ⟨hvalid, effective_idem h, ?_, ?_⟩
  · rintro rfl
    refine ⟨delta_of_effective h, keepsRatios_of_effective h, fun c c' hlexical hpositional htype => ?_⟩
    rw [c.combine_of_validate hvalid, c'.combine_of_validate hvalid,
      Components.blend_of_delta hvalid (delta_of_effective h) hlexical hpositional htype]
  · intro c
    exact ⟨c.blend e, c.combine_of_validate hvalid, (c.settled_blend e).1, c.spansNearly_blend hvalid,
      fun c' hle => ⟨c'.blend e, c'.combine_of_validate hvalid, Components.blend_mono hvalid hle⟩⟩

/-- The weights of a configuration that states none, without staging: the components ⟨1, 0.5, 0.2, 0.8⟩ combine to a number between 0
and 1 that is hardly outside the first three of them. -/
theorem Weights.effective_blends_default : ∃ e, Weights.default.effective false = .ok e ∧ e.effective false = .ok e ∧
    Weights.default.KeepsRatios e ∧ ∃ psi, (Components.mk 1 0.5 0.2 0.8 (by decide +kernel)).combine e = .ok psi ∧
      psi.inUnit = true ∧ (Components.mk 1 0.5 0.2 0.8 (by decide +kernel)).SpansNearly e psi := by
  have happlied : ∃ e, Weights.default.effective false = .ok e := (Config.valid_of_validate Config.validate_default).applied
  obtain ⟨e, he⟩ := happlied
  obtain ⟨_, hagain, hunstaged, hblend⟩ := Weights.effective_blends he
  obtain ⟨psi, hpsi, hunit, hspans, _⟩ := hblend _
  exact ⟨e, he, hagain, (hunstaged rfl).2.1, psi, hpsi, hunit, hspans⟩

end TokenForest
