import TokenForest.Proofs.Confidence.Combined
import TokenForest.Proofs.Confidence.Scoring
import TokenForest.Proofs.Resolution.Optimal
import TokenForest.Proofs.Resolution.Rescored
import TokenForest.Proofs.Survey.Tightening

/-!
# Symbols with greater scores

A symbol with a greater score has no lower components, so no lower confidence under any reading, and reaches every minimum and threshold
that it reached. A reading that is eligible for it stays eligible, and the best confidence does not fall.
-/

namespace TokenForest

/-- The symbols are the same but for the score, which the second one has no lower. -/
structure Symbol.Raised (s s' : Symbol) : Prop where
  same : s.scoreless = s'.scoreless
  score : s.lexicalScore ≤ s'.lexicalScore
  inUnit : s.lexicalScore.inUnit = true
  inUnit' : s'.lexicalScore.inUnit = true

theorem Symbol.Raised.retag {s s' : Symbol} (h : s.Raised s') (typeTag : String) (hint : Hint) :
    (s.retag typeTag hint).Raised (s'.retag typeTag hint) :=
  ⟨congrArg (fun t : Symbol => t.retag typeTag hint) h.same, h.score, h.inUnit, h.inUnit'⟩

theorem Binary64.le_refl_of_inUnit {x : Binary64} (h : x.inUnit = true) : x ≤ x :=
  (Binary64.le_iff_units (isFinite_of_inUnit h) (isFinite_of_inUnit h)).2 (Int.le_refl _)

variable {grid grid' : Grid} {config : Config} {grammar : Grammar} {p : Position} {s s' : Symbol} {b : Breakdown}

/-! ## Components -/

namespace Scoring

/-- The lexical component does not fall when the score is raised. -/
theorem lexical_mono (h : s.Raised s') (grammar : Grammar) : lexical s grammar ≤ lexical s' grammar := by
  have hsame := h.same
  simp only [Symbol.scoreless, Symbol.mk.injEq] at hsame
  obtain ⟨_, hclass, hlexeme, htag, _⟩ := hsame
  have hfactor : ∀ fits : Bool, (if fits then (1 : Binary64) else mismatchFactor).inUnit = true := by
    intro fits
    cases fits
    · exact Binary64.inUnit_marks.2 0.2 (by simp)
    · exact Binary64.inUnit_one
  unfold lexical
  simp only
  rw [hclass, hlexeme, htag]
  have hfactor := hfactor (grammar.recognizes s'.symbolClass s'.typeTag s'.lexeme)
  generalize (if grammar.recognizes s'.symbolClass s'.typeTag s'.lexeme then (1 : Binary64) else mismatchFactor) = factor at hfactor ⊢
  have hfinite := Binary64.isFinite_of_inUnit h.inUnit
  have hfinite' := Binary64.isFinite_of_inUnit h.inUnit'
  exact Binary64.clampUnit_mono (Binary64.mul_le_mul_right (Binary64.isFinite_of_inUnit hfactor) hfinite hfinite'
    (Binary64.units_between_of_inUnit hfactor).1 (Binary64.units_between_of_inUnit h.inUnit).1
    ((Binary64.le_iff_units hfinite hfinite').1 h.score))

/-- The other components do not read the score. -/
theorem others_of_raised (h : s.Raised s') (left right : Option Symbol) (staging : Staging) (grammar : Grammar) :
    positional s left right grammar = positional s' left right grammar ∧ typeConsistency s left right = typeConsistency s' left right ∧
      stageBinding s staging = stageBinding s' staging := by
  have hsame := h.same
  simp only [Symbol.scoreless, Symbol.mk.injEq] at hsame
  obtain ⟨_, _, hlexeme, _, hhint, _, hstage, hprocess, hphase⟩ := hsame
  unfold positional placePrior typeConsistency stageBinding declared
  rw [hlexeme, hhint, hstage, hprocess, hphase]
  exact ⟨rfl, rfl, rfl⟩

end Scoring

/-- No component falls when the score is raised. -/
theorem Components.below_of_raised {components components' : Components} (h : s.Raised s')
    (hscore : Scoring.standard s p grid config grammar = .ok components)
    (hscore' : Scoring.standard s' p grid config grammar = .ok components') : components.Below components' := by
  have hmake : ∀ {a b c d : Binary64} {made : Components}, make? a b c d = .ok made →
      made.lexical = a ∧ made.positional = b ∧ made.typeConsistency = c ∧ made.stageBinding = d := by
    intro a b c d made hmade
    unfold make? at hmade
    split at hmade
    · cases hmade
      exact ⟨rfl, rfl, rfl, rfl⟩
    · cases hmade
  unfold Scoring.standard Scoring.componentsBetween at hscore hscore'
  simp only at hscore hscore'
  generalize (grid.beside p).1.bind grid.symbolAt? = left at hscore hscore'
  generalize (grid.beside p).2.bind grid.symbolAt? = right at hscore hscore'
  obtain ⟨hpositional, htype, hstage⟩ := Scoring.others_of_raised h left right config.staging grammar
  obtain ⟨place, hplace, hscore⟩ := ok_of_bind hscore
  rw [← hpositional, hplace, ok_bind] at hscore'
  obtain ⟨hlexical, hp, ht, hs⟩ := hmake hscore
  obtain ⟨hlexical', hp', ht', hs'⟩ := hmake hscore'
  have hunit : ∀ x ∈ components.toList, x ≤ x := fun x hx => Binary64.le_refl_of_inUnit (inUnit_of_mem hx)
  refine ⟨?_, ?_, ?_, ?_⟩
  · rw [hlexical, hlexical']
    exact Binary64.roundSix_mono (Binary64.inUnit_clampUnit _) (Binary64.inUnit_clampUnit _) (Scoring.lexical_mono h grammar)
  · rw [hp', ← hp]
    exact hunit _ (by simp [toList])
  · rw [ht', ← htype, ← ht]
    exact hunit _ (by simp [toList])
  · rw [hs', ← hstage, ← hs]
    exact hunit _ (by simp [toList])

namespace Components

variable {c c' : Components}

theorem value_le (h : c.Below c') (name : String) : c.value name ≤ c'.value name := by
  have hpairs : List.Forall₂ (fun x y : String × Binary64 => x.1 = y.1 ∧ x.2 ≤ y.2) c.named c'.named := by
    unfold named
    exact .cons ⟨rfl, h.lexical⟩ (.cons ⟨rfl, h.positional⟩ (.cons ⟨rfl, h.typeConsistency⟩ (.cons ⟨rfl, h.stageBinding⟩ .nil)))
  unfold value
  generalize c.named = xs at hpairs
  generalize c'.named = ys at hpairs
  induction hpairs with
  | nil => exact Binary64.le_refl_of_inUnit Binary64.inUnit_zero
  | @cons x y xs ys hxy _ ih =>
    rw [List.lookup_cons, List.lookup_cons, ← hxy.1]
    split
    · exact hxy.2
    · exact ih

/-- Components that are no lower reach every minimum that is reached. -/
theorem reaches_mono (h : c.Below c') {minimums : List (String × Binary64)} (hreaches : c.reaches minimums = true) :
    c'.reaches minimums = true := by
  unfold reaches at hreaches ⊢
  rw [List.all_eq_true] at hreaches ⊢
  intro m hm
  have hle := value_le h m.1
  have hnot : ¬c.value m.1 < m.2 := by simpa using hreaches m hm
  have hnot' : ¬c'.value m.1 < m.2 := by
    rw [Binary64.lt_iff] at hnot ⊢
    rw [Binary64.le_iff] at hle
    rintro ⟨_, hminimum, hlt⟩
    exact hnot ⟨hle.1, hminimum, by omega⟩
  simpa using hnot'

end Components

/-! ## Confidences -/

/-- A confidence with its components is no greater than another one. -/
structure Breakdown.Below (b b' : Breakdown) : Prop where
  components : b.components.Below b'.components
  psi : b.psi ≤ b'.psi

/-- A symbol with a greater score has no lower confidence. -/
theorem Context.breakdown_raised (h : s.Raised s') (hb : (standard grid config grammar).breakdown s p = .ok b) :
    ∃ b', (standard grid config grammar).breakdown s' p = .ok b' ∧ b.Below b' := by
  unfold breakdown breakdownWith standard Scorer.standard at hb ⊢
  simp only at hb ⊢
  obtain ⟨w, hw, hb⟩ := ok_of_bind hb
  obtain ⟨components, hcomponents, hb⟩ := ok_of_bind hb
  obtain ⟨psi, hpsi, hb⟩ := ok_of_bind hb
  cases hb
  have hvalid := Weights.validate_of_effective (ok_of_mapError hw)
  have hblend := Components.combine_eq_ok (ok_of_mapError hpsi)
  have hknown : s'.hint.isKnown = true := by
    have hsame := congrArg Symbol.hint h.same
    change s.hint = s'.hint at hsame
    rw [← hsame]
    exact Scoring.isKnown_of_standard (ok_of_mapError hcomponents)
  obtain ⟨components', hcomponents'⟩ := Scoring.exists_standard hknown p grid config grammar
  unfold Scorer.standard at hcomponents'
  simp only at hcomponents'
  have hbelow := Components.below_of_raised h (ok_of_mapError hcomponents) hcomponents'
  have hle := Components.blend_mono hvalid hbelow
  rw [← hblend] at hle
  have hcombined := components'.combine_of_validate hvalid
  generalize components'.blend w = psi' at hle hcombined
  refine ⟨⟨components', psi'⟩, ?_, hbelow, hle⟩
  rw [hw, ok_bind, hcomponents', mapError_ok, ok_bind, hcombined]
  rfl

/-! ## Readings -/

namespace Resolution

variable (h : s.Raised s') (hgrid : grid.Rescored grid')

include h hgrid

theorem exists_breakdown_raised (hb : (Context.standard grid config grammar).breakdown s p = .ok b) :
    ∃ b', (Context.standard grid' config grammar).breakdown s' p = .ok b' ∧ b.Below b' := by
  rw [← Context.breakdown_rescored hgrid]
  exact Context.breakdown_raised h hb

omit hgrid in
theorem fits_raised {r : Reading} (hfits : Fits grammar s r) : Fits grammar s' r := by
  have hsame := h.same
  simp only [Symbol.scoreless, Symbol.mk.injEq] at hsame
  obtain ⟨_, hclass, hlexeme, htag, _⟩ := hsame
  exact ⟨hfits.registered, hfits.symbolClass.trans hclass, htag ▸ hfits.typeTag, hlexeme ▸ hfits.lexeme⟩

/-- A reading that is eligible for a symbol is eligible for it with a greater score. -/
theorem eligible_raised {r : Reading} (hr : Eligible (.standard grid config grammar) p s r b) :
    ∃ b', Eligible (.standard grid' config grammar) p s' r b' := by
  obtain ⟨b', hb', hbelow⟩ := exists_breakdown_raised (h.retag r.typeTag r.hint) hgrid hr.scored
  have hintent : (Context.standard grid config grammar).intentAs p (s.retag r.typeTag r.hint) =
      (Context.standard grid' config grammar).intentAs p (s'.retag r.typeTag r.hint) :=
    Context.intentAs_rescored hgrid (h.retag r.typeTag r.hint).same p
  have hreached := hr.reached
  have hcompatible := hr.compatible
  rw [hintent] at hreached hcompatible
  rw [Context.intentAt_rescored hgrid] at hcompatible
  exact ⟨b', fits_raised h hr.fits, hb', Binary64.le_trans hreached hbelow.psi, Components.reaches_mono hbelow.components hr.minimums,
    hcompatible⟩

/-- Of a symbol with a greater score, a confidence is found that is no lower. -/
theorem scored_raised {psi : Binary64} (hpsi : Scored (.standard grid config grammar) p s psi) :
    ∃ psi', Scored (.standard grid' config grammar) p s' psi' ∧ psi ≤ psi' := by
  cases hpsi with
  | original hb =>
    obtain ⟨b', hb', hbelow⟩ := exists_breakdown_raised h hgrid hb
    exact ⟨b'.psi, .original hb', hbelow.psi⟩
  | @reading r b hr hb =>
    obtain ⟨b', hb', hbelow⟩ := exists_breakdown_raised (h.retag r.typeTag r.hint) hgrid hb
    exact ⟨b'.psi, .reading (fits_raised h hr) hb', hbelow.psi⟩

/-- The best confidence of a resolution does not fall when the score is raised. -/
theorem best_raised {r r' : Resolution} (hr : Optimal (.standard grid config grammar) p s r)
    (hr' : Optimal (.standard grid' config grammar) p s' r') : r.bestConfidence ≤ r'.bestConfidence := by
  obtain ⟨psi, hscored, hle⟩ := scored_raised h hgrid hr.best.1
  exact Binary64.le_trans hle (hr'.best.2 psi hscored)

/-- A symbol that is resolved is resolved with a greater score. -/
theorem resolved_raised {r r' : Resolution} (hr : Optimal (.standard grid config grammar) p s r)
    (hr' : Optimal (.standard grid' config grammar) p s' r') (hresolved : r.status = .resolved) : r'.status = .resolved := by
  obtain ⟨reading, b, heligible⟩ := hr.resolved_iff.1 hresolved
  obtain ⟨b', heligible'⟩ := eligible_raised h hgrid heligible
  exact hr'.resolved_iff.2 ⟨reading, b', heligible'⟩

end Resolution

end TokenForest
