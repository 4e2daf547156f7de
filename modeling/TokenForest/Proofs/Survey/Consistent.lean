import TokenForest.Proofs.Session
import TokenForest.Proofs.Survey.Grounds

/-!
# Decisions agree with themselves

The threshold that a decision records is that of the intent of its symbol in the recorded row, and the best confidence that it records is
no less than those of the symbol and of the reading in its place. An accepted symbol reaches the recorded threshold, a flagged one misses
it or a minimum. The reading that replaces a flagged symbol reaches the threshold of its own intent: where this is another intent than
that of the symbol, it may miss the threshold that is recorded.
-/

namespace TokenForest

/-- Components do not reach the minimums when one of them is below its minimum. -/
theorem Components.reaches_eq_false_iff {components : Components} {minimums : List (String × Binary64)} :
    components.reaches minimums = false ↔ ∃ m ∈ minimums, components.value m.1 < m.2 := by
  unfold reaches
  simp

namespace Survey

variable {c : Context} {d : Decision}

/-- A flagged symbol is below its threshold or one of its components is below a minimum. -/
theorem short_of_flagged {p : Position} {s : Symbol} {b : Breakdown} (htheta : c.config.thetaMin ≠ .nan)
    (hb : c.breakdown s p = .ok b) (h : judged c p s b = .error p) :
    b.psi < c.config.threshold (c.intentAt p) ∨ ∃ m ∈ c.config.componentMinimums, b.components.value m.1 < m.2 := by
  have hlow := Binary64.not_lt (Context.settled_of_breakdown hb).ne_nan (Config.threshold_ne_nan htheta (c.intentAt p))
  obtain ⟨_, hshort⟩ := judged_eq_error_iff.1 h
  by_cases hpsi : b.psi < c.config.threshold (c.intentAt p)
  · exact Or.inl hpsi
  · refine Or.inr (Components.reaches_eq_false_iff.1 ?_)
    rw [← Bool.not_eq_true]
    exact fun hreaches => hshort ⟨hlow.1 hpsi, hreaches⟩

/-- A decision that rests on its grounds agrees with itself. -/
theorem Grounded.consistent (htheta : c.config.thetaMin ≠ .nan) (h : Grounded c d) : Consistent c d := by
  cases h with
  | accepted hs hb hjudged =>
    obtain ⟨hreached, _, rfl⟩ := judged_eq_ok_iff.1 hjudged
    refine ⟨hs, fun _ => rfl, fun _ => ⟨rfl, hreached⟩, ?_, ?_, ?_⟩ <;> simp [Decision.accept]
  | skipped hs psi => refine ⟨hs, ?_, ?_, ?_, ?_, ?_⟩ <;> simp [Decision.skip]
  | @settled p s b hs hb hflagged r hr =>
    have hsettled := Context.settled_of_breakdown hb
    have hshort := short_of_flagged htheta hb hflagged
    obtain ⟨_, hbest, _⟩ := hr.best hsettled fun _ _ h => h
    unfold settle
    rw [hr.originalIntent]
    split
    · rename_i t final hchosen
      have hfinal := hr.chosen_le_best hsettled (fun _ _ h => h) hchosen
      obtain ⟨_, _, reading, _, rfl, hreading, hpasses, _⟩ := hr.chosen (fun _ _ h => h) hchosen
      obtain ⟨hreached, _, hcompatible⟩ := (Resolution.passes_iff hreading htheta).1 hpasses
      refine ⟨hs, fun _ => rfl, by simp [Decision.resolve], fun _ => ?_, by simp [Decision.resolve], fun _ => ⟨b, hb, rfl, hshort⟩⟩
      refine ⟨hbest, hfinal, _, rfl, hreached, hcompatible, fun hsame => ?_⟩
      have hreached' : c.config.threshold (c.intentAt p) ≤ final.psi := hsame ▸ hreached
      exact hreached'
    · exact ⟨hs, fun _ => rfl, by simp [Decision.review], by simp [Decision.review], fun _ => hbest, fun _ => ⟨b, hb, rfl, hshort⟩⟩

/-- Every decision of a survey of an organized grid agrees with itself, whatever the scorer and the deadline are. A resolved one may miss
the threshold that it records, when the reading in the place of its symbol has another intent. -/
theorem run_consistent {records : List TokenRecord} {staged : Bool} {source : Grammar}
    (hgrid : Grid.organize records staged source = .ok c.grid) {deadline : Deadline} {memo : Memo} (hmemo : c.Credible memo)
    {survey : Survey} (h : ((run c deadline).run.run memo).1 = .ok survey) : ∀ d ∈ survey.decisions, Consistent c d := by
  obtain ⟨hvalid, hgrounded⟩ := (run_keeps (Grid.nodup_positions hgrid) deadline memo hmemo).2 survey h
  exact fun d hd => (hgrounded d hd).consistent (Config.thetaMin_ne_nan hvalid)

/-! ## A declaration that is read as an assignment -/

/-- A declaration whose type is taken for a name. -/
def misreadRecords : List TokenRecord := [
  ⟨.terminal, "identifier", "int", some 0, some 0, none, none, none, "", 0.9⟩,
  ⟨.terminal, "operator.assign", "=", some 0, some 1, none, none, none, "", 1⟩,
  ⟨.terminal, "literal", "1", some 0, some 2, none, none, none, "", 1⟩]

/-- The grid of the declaration. -/
def misreadGrid : Grid where
  staged := false
  cells := [
    (⟨0, 0, none⟩, ⟨Grid.symbolName 1 ⟨0, 0, none⟩, .terminal, "int", "identifier", .identifier, 0.9, none, none, none⟩),
    (⟨0, 1, none⟩, ⟨Grid.symbolName 2 ⟨0, 1, none⟩, .terminal, "=", "operator.assign", .operatorAssign, 1, none, none, none⟩),
    (⟨0, 2, none⟩, ⟨Grid.symbolName 3 ⟨0, 2, none⟩, .terminal, "1", "literal", .literal, 1, none, none, none⟩)]

/-- Assignments have to be nearly certain. -/
def strictAssignments : Config := { Config.default with intentThresholds := [(.assign, 0.97)] }

theorem validate_strictAssignments : strictAssignments.validate = .ok () :=
  Config.validate_with_threshold Config.validate_default rfl (Binary64.inUnit_ofScientific (by decide))
    (Binary64.ofScientific_le (by decide))

theorem organize_misreadRecords : Grid.organize misreadRecords misreadGrid.staged .default = .ok misreadGrid :=
  Grid.organize_of_ordered (by decide +kernel) (by decide +kernel) (by decide +kernel)

/-- The type is resolved with a confidence below the threshold that is recorded. -/
theorem verdict_misread : (match verdict (.standard misreadGrid strictAssignments .default) ⟨0, 0, none⟩ with
    | .ok d => decide (d.status = .resolved ∧ ¬d.threshold ≤ d.finalPsi)
    | .error _ => false) = true := by decide +kernel

theorem exists_survey_misread : ∃ survey,
    ((run (.standard misreadGrid strictAssignments .default) .never).run.run .empty).1 = .ok survey := by
  rw [← Session.surveyAfter_nil]
  exact (Session.concludes_surveyAfter organize_misreadRecords validate_strictAssignments [] .default).exists_ok Session.known_default

/-- The decisions on the declaration agree with themselves. -/
theorem run_consistent_misread : ∃ survey,
    ((run (.standard misreadGrid strictAssignments .default) .never).run.run .empty).1 = .ok survey ∧
      ∀ d ∈ survey.decisions, Consistent (.standard misreadGrid strictAssignments .default) d := by
  obtain ⟨survey, h⟩ := exists_survey_misread
  exact ⟨survey, h, run_consistent organize_misreadRecords Context.credible_empty h⟩

/-- Not every resolved decision reaches the threshold that it records: the name was an assignment, its type a declaration, and these have
the general threshold. -/
theorem threshold_of_replaced_intent : ∃ survey,
    ((run (.standard misreadGrid strictAssignments .default) .never).run.run .empty).1 = .ok survey ∧
      ¬∀ d ∈ survey.decisions, d.status = .resolved → d.threshold ≤ d.finalPsi := by
  obtain ⟨survey, h⟩ := exists_survey_misread
  obtain ⟨hpositions, hverdicts⟩ := Session.positions_and_verdicts organize_misreadRecords validate_strictAssignments
    ((Session.surveyAfter_nil _ _ _).trans h)
  have hp : (⟨0, 0, none⟩ : Position) ∈ survey.decisions.map (·.position) := by
    rw [hpositions]
    decide
  obtain ⟨d, hd, hposition⟩ := List.mem_map.1 hp
  have hmisread := verdict_misread
  rw [← hposition, hverdicts d hd] at hmisread
  obtain ⟨hresolved, hmissed⟩ := of_decide_eq_true hmisread
  exact ⟨survey, h, fun hall => hmissed (hall d hd hresolved)⟩

end Survey

end TokenForest
