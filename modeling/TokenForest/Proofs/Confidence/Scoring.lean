import TokenForest.Confidence.Scoring
import TokenForest.Proofs.Binary64.SixPlaces
import TokenForest.Proofs.Outcomes

/-!
# The standard score of a symbol

Each of the four standard components lies between 0 and 1, whatever the symbol, its place and the tables say, so the standard score
refuses a symbol only for a hint that is not on the list.
-/

namespace TokenForest

namespace Scoring

/-- Every hint on the list has its priors, and no other one has. -/
theorem placePriors_cases (hint : Hint) : hint.isKnown = true ∧ (∃ first middle last, placePriors hint = .ok (first, middle, last) ∧
      first.inUnit = true ∧ middle.inUnit = true ∧ last.inUnit = true) ∨
    hint.isKnown = false ∧ placePriors hint = .error (.noPriors hint.name) := by
  cases hint with
  | other name => exact Or.inr ⟨rfl, rfl⟩
  | _ =>
    exact Or.inl ⟨rfl, _, _, _, rfl, Binary64.inUnit_marks.2 _ (by simp), Binary64.inUnit_marks.2 _ (by simp),
      Binary64.inUnit_marks.2 _ (by simp)⟩

theorem inUnit_placePrior (s : Symbol) (left right : Option Symbol) (grammar : Grammar) {first middle last : Binary64}
    (hfirst : first.inUnit = true) (hmiddle : middle.inUnit = true) (hlast : last.inUnit = true) :
    (placePrior s left right grammar (first, middle, last)).inUnit = true := by
  unfold placePrior
  cases left with
  | none =>
    simp only
    split
    · exact Binary64.inUnit_one
    · exact hfirst
  | some l =>
    cases right with
    | none => exact hlast
    | some r => exact hmiddle

theorem inUnit_typeConsistency (s : Symbol) (left right : Option Symbol) : (typeConsistency s left right).inUnit = true := by
  have hmark : ∀ leftOk rightOk : Bool,
      (if leftOk && rightOk then (1 : Binary64) else if leftOk || rightOk then 0.5 else 0.1).inUnit = true := by
    intro leftOk rightOk
    split
    · exact Binary64.inUnit_one
    · split
      · exact Binary64.inUnit_marks.2 0.5 (by simp)
      · exact Binary64.inUnit_marks.2 0.1 (by simp)
  exact hmark _ _

/-- Of at most three identifiers, the share of those that are active. -/
theorem inUnit_share {active total : Nat} (h : active ≤ total) (ht : 0 < total) (h3 : total ≤ 3) :
    (Binary64.ofInt active / Binary64.ofInt total).inUnit = true := by
  have hall : ∀ t : Fin 4, ∀ a : Fin 4, a.val ≤ t.val → 0 < t.val →
      (Binary64.ofInt a.val / Binary64.ofInt t.val).inUnit = true := by
    decide +kernel
  exact hall ⟨total, by omega⟩ ⟨active, by omega⟩ h ht

theorem inUnit_stageBinding (s : Symbol) (staging : Staging) : (stageBinding s staging).inUnit = true := by
  unfold stageBinding
  split
  · exact Binary64.inUnit_zero
  · simp only
    split
    · exact Binary64.inUnit_one
    · rename_i hsome
      have hlength : (declared s staging).length ≤ 3 := List.length_filterMap_le _ _
      apply inUnit_share List.count_le_length _ hlength
      apply List.length_pos_iff.2
      intro hnil
      rw [hnil] at hsome
      exact hsome rfl

/-- A symbol has a standard place score just when its hint is on the list. -/
theorem exists_positional (s : Symbol) (left right : Option Symbol) (grammar : Grammar) (h : s.hint.isKnown = true) :
    ∃ place, positional s left right grammar = .ok place ∧ place.inUnit = true := by
  unfold positional
  rcases placePriors_cases s.hint with ⟨_, first, middle, last, hpriors, hfirst, hmiddle, hlast⟩ | ⟨hunknown, _⟩
  · rw [hpriors]
    exact ⟨_, rfl, inUnit_placePrior s left right grammar hfirst hmiddle hlast⟩
  · rw [h] at hunknown
    cases hunknown

/-- A symbol with standard components has a hint on the list. -/
theorem isKnown_of_standard {s : Symbol} {p : Position} {grid : Grid} {config : Config} {grammar : Grammar} {components : Components}
    (h : standard s p grid config grammar = .ok components) : s.hint.isKnown = true := by
  obtain ⟨place, hplace, _⟩ := ok_of_bind h
  obtain ⟨priors, hpriors, _⟩ := ok_of_bind hplace
  rcases placePriors_cases s.hint with ⟨hknown, _⟩ | ⟨_, hnone⟩
  · exact hknown
  · cases hnone.symm.trans hpriors

/-- The standard score answers for every symbol whose hint is on the list, at every position. -/
theorem exists_standard {s : Symbol} (hknown : s.hint.isKnown = true) (p : Position) (grid : Grid) (config : Config)
    (grammar : Grammar) : ∃ components, Scorer.standard.score s p grid config grammar = .ok components := by
  have hmake : ∀ {a b c d : Binary64}, a.inUnit = true → b.inUnit = true → c.inUnit = true → d.inUnit = true →
      ∃ components, Components.make? a.roundSix b.roundSix c.roundSix d.roundSix = .ok components := by
    intro a b c d ha hb hc hd
    have hall : [a.roundSix, b.roundSix, c.roundSix, d.roundSix].all Binary64.inUnit = true := by
      simp [Binary64.inUnit_roundSix, ha, hb, hc, hd]
    exact ⟨_, dif_pos hall⟩
  simp only [Scorer.standard, standard, componentsBetween]
  obtain ⟨place, hplace, hunit⟩ := exists_positional s ((grid.beside p).1.bind grid.symbolAt?)
    ((grid.beside p).2.bind grid.symbolAt?) grammar hknown
  rw [hplace, ok_bind]
  exact hmake (Binary64.inUnit_clampUnit _) hunit (inUnit_typeConsistency _ _ _) (inUnit_stageBinding _ _)

end Scoring

end TokenForest
