import TokenForest.Proofs.Confidence.Scoring
import TokenForest.Proofs.Survey.UnitOrder
import TokenForest.Session

/-!
# Sessions on a grid

A session asks one grid for confidences, resolutions and surveys, under configurations and grammars that change from step to step, and
all its steps share the table of confidences. The table stays truthful, so every step answers as it answers with an empty table.
-/

namespace TokenForest

namespace Session

/-! ## The table stays truthful -/

variable {grid : Grid} {memo : Memo}

theorem truthful_empty : Context.Truthful grid .empty := Context.truthful_of_entries_nil rfl

/-- A computation answers alike with any two truthful tables, and leaves truthful ones. -/
theorem answering_of_computes {α : Type} {x : Evaluating α} {r : Except Fault α} (h : x.Computes (Context.Truthful grid) r)
    (answer : Except Fault α → Answer) (hmemo : Context.Truthful grid memo) :
    (answering answer x memo).1 = (answering answer x .empty).1 ∧ Context.Truthful grid (answering answer x memo).2 := by
  unfold answering
  rw [(h memo hmemo).1, (h .empty truthful_empty).1]
  exact ⟨rfl, (h memo hmemo).2⟩

theorem cellConfidence_computes {c : Context} (hscorer : c.scorer = .standard) (p : Position) :
    (cellConfidence c p).Computes (Context.Truthful c.grid) (c.symbolAt p >>= fun s => c.breakdown s p) := by
  refine (Evaluating.Computes.lift _).bind fun s hs => ?_
  exact Context.evaluate_computes hscorer (Context.symbolAt?_of_symbolAt hs)

/-- A step answers as with an empty table, and leaves a truthful table. -/
theorem perform_of_truthful (hnodup : grid.positions.Nodup) (hmemo : Context.Truthful grid memo) (step : Step) :
    (perform grid memo step).1 = (perform grid .empty step).1 ∧ Context.Truthful grid (perform grid memo step).2 := by
  cases step with
  | confidence config grammar p => exact answering_of_computes (cellConfidence_computes rfl p) .confidence hmemo
  | resolution config grammar p => exact answering_of_computes (Resolution.resolve_computes rfl p) .resolution hmemo
  | survey config grammar => exact answering_of_computes (Survey.run_computes rfl hnodup) .survey hmemo
  | scan config grammar unit => exact answering_of_computes (Survey.surveyRow_computes rfl hnodup unit) .scan hmemo
  | settlement config grammar flagged =>
    exact answering_of_computes (Survey.settleRow_computes rfl flagged) .settlement hmemo
  | forget => exact ⟨rfl, Context.truthful_of_entries_nil rfl⟩

theorem truthful_tableAfter (hnodup : grid.positions.Nodup) (hmemo : Context.Truthful grid memo) (steps : List Step) :
    Context.Truthful grid (tableAfter grid memo steps) := by
  induction steps generalizing memo with
  | nil => exact hmemo
  | cons step steps ih => exact ih (perform_of_truthful hnodup hmemo step).2

theorem answers_of_truthful (hnodup : grid.positions.Nodup) (hmemo : Context.Truthful grid memo) (steps : List Step) :
    answers grid memo steps = steps.map (fun step => (perform grid .empty step).1) := by
  induction steps generalizing memo with
  | nil => rfl
  | cons step steps ih =>
    obtain ⟨hanswer, hkept⟩ := perform_of_truthful hnodup hmemo step
    rw [answers, List.map_cons, hanswer, ih hkept]

/-! ## Surveys of a session -/

variable {records : List TokenRecord} {staged : Bool} {source : Grammar}

theorem surveyAfter_nil (grid : Grid) (config : Config) (grammar : Grammar) :
    surveyAfter grid [] config grammar = ((Survey.run (.standard grid config grammar) .never).run.run .empty).1 := rfl

/-- What came before a survey does not show in its result. -/
theorem surveyAfter_eq (hnodup : grid.positions.Nodup) (steps : List Step) (config : Config) (grammar : Grammar) :
    surveyAfter grid steps config grammar = Survey.outcome (.standard grid config grammar) :=
  (Survey.run_computes (c := .standard grid config grammar) rfl hnodup _ (truthful_tableAfter hnodup truthful_empty steps)).1

/-- What came before a resolution does not show in its result. -/
theorem resolutionAfter_eq (hnodup : grid.positions.Nodup) (steps : List Step) (config : Config) (grammar : Grammar) (p : Position) :
    resolutionAfter grid steps config grammar p = Resolution.outcome (.standard grid config grammar) p :=
  (Resolution.resolve_computes (c := .standard grid config grammar) rfl p _ (truthful_tableAfter hnodup truthful_empty steps)).1

/-- An organized grid with a valid configuration is all that a survey with the standard scorer needs. -/
theorem sound_standard (hgrid : Grid.organize records staged source = .ok grid) {config : Config} (hvalid : config.validate = .ok ())
    (grammar : Grammar) : (Context.standard grid config grammar).Sound :=
  ⟨hvalid, fun _ p hs => Scoring.exists_standard (Symbol.isKnown_of_fault? hs) p grid config grammar, Grid.pairwise_positions hgrid, Grid.nodup_positions hgrid,
    fun _ hcell => Grid.fault?_of_mem_cells hgrid hcell⟩

/-- A resolution of the symbol in a cell has its outcome for a result, or it stops at a reading whose hint is not on the list. -/
theorem resolutionAfter_answers (hgrid : Grid.organize records staged source = .ok grid) {config : Config}
    (hvalid : config.validate = .ok ()) (steps : List Step) (grammar : Grammar) {p : Position} {s : Symbol}
    (hs : grid.symbolAt? p = some s) :
    (∃ r, resolutionAfter grid steps config grammar p = .ok r ∧ Resolution.outcome (.standard grid config grammar) p = .ok r) ∨
      ∃ fault, resolutionAfter grid steps config grammar p = .error fault ∧ (Context.standard grid config grammar).Misread fault := by
  have hanswers := Resolution.resolve_answers (sound_standard hgrid hvalid grammar) hs
  rcases hanswers (tableAfter grid .empty steps) with ⟨r, memo', hrun, _⟩ | hmisread
  · have hr : resolutionAfter grid steps config grammar p = .ok r := hrun.answer
    exact Or.inl ⟨r, hr, resolutionAfter_eq (Grid.nodup_positions hgrid) steps config grammar p ▸ hr⟩
  · exact Or.inr hmisread

/-- A survey of an organized grid with a valid configuration concludes. -/
theorem concludes_surveyAfter (hgrid : Grid.organize records staged source = .ok grid) {config : Config}
    (hvalid : config.validate = .ok ()) (steps : List Step) (grammar : Grammar) :
    Concludes (.standard grid config grammar) (surveyAfter grid steps config grammar) := by
  have h := sound_standard hgrid hvalid grammar
  rcases Survey.steps_or_misread h .never (tableAfter grid .empty steps) with
    ⟨scans, memo', resolved, memo'', hscan, hsettle⟩ | hmisread
  · obtain ⟨survey, hrun, _, hpositions⟩ := Survey.run_of_steps h hscan hsettle
    exact Or.inl ⟨survey, hrun.answer, hpositions⟩
  · exact Or.inr hmisread

/-- Where all hints are on the list, no reading is a fault. -/
theorem not_misread {c : Context} (hknown : ∀ r ∈ c.grammar.readings, r.hint.isKnown = true) {fault : Fault} : ¬c.Misread fault := by
  rintro ⟨r, hr, hunknown, _⟩
  rw [hknown r hr] at hunknown
  cases hunknown

/-- Where all hints are on the list, a resolution of the symbol in a cell has its outcome for a result. -/
theorem exists_resolution (hgrid : Grid.organize records staged source = .ok grid) {config : Config}
    (hvalid : config.validate = .ok ()) {grammar : Grammar} (hknown : ∀ r ∈ grammar.readings, r.hint.isKnown = true)
    (steps : List Step) {p : Position} {s : Symbol} (hs : grid.symbolAt? p = some s) :
    ∃ r, resolutionAfter grid steps config grammar p = .ok r ∧ Resolution.outcome (.standard grid config grammar) p = .ok r := by
  rcases resolutionAfter_answers hgrid hvalid steps grammar hs with hr | ⟨_, _, hmisread⟩
  · exact hr
  · exact absurd hmisread (not_misread hknown)

/-- Where all hints are on the list, what concludes has a result. -/
theorem Concludes.exists_ok {c : Context} {result : Except Fault Survey} (h : Concludes c result)
    (hknown : ∀ r ∈ c.grammar.readings, r.hint.isKnown = true) : ∃ survey, result = .ok survey := by
  rcases h with ⟨survey, hsurvey, _⟩ | ⟨fault, _, hmisread⟩
  · exact ⟨survey, hsurvey⟩
  · exact absurd hmisread (not_misread hknown)

theorem known_default : ∀ r ∈ Grammar.default.readings, r.hint.isKnown = true := by decide

/-- A survey that has a result has the positions of the grid and decides on each by its verdict. -/
theorem positions_and_verdicts (hgrid : Grid.organize records staged source = .ok grid) {config : Config}
    (hvalid : config.validate = .ok ()) {steps : List Step} {grammar : Grammar} {survey : Survey}
    (h : surveyAfter grid steps config grammar = .ok survey) : survey.decisions.map (·.position) = grid.positions ∧
      ∀ d ∈ survey.decisions, Survey.verdict (.standard grid config grammar) d.position = .ok d := by
  constructor
  · rcases concludes_surveyAfter hgrid hvalid steps grammar with ⟨survey', hsurvey, hpositions⟩ | ⟨fault, hfault, _⟩
    · cases h.symm.trans hsurvey
      exact hpositions
    · cases h.symm.trans hfault
  · rw [surveyAfter_eq (Grid.nodup_positions hgrid)] at h
    exact Survey.verdict_of_outcome h

/-! ## Transparency -/

/-- Every step of a session on an organized grid answers as it answers with an empty table. In particular a survey may scan and resolve
its rows in any order, after any session: it has the decisions that it has in its own order with an empty table. -/
theorem answers_transparent (hgrid : Grid.organize records staged source = .ok grid) (steps : List Step) :
    answers grid .empty steps = steps.map (fun step => (perform grid .empty step).1) ∧
    ∀ (config : Config) (grammar : Grammar) (rows : List (Lane × Nat)) (arrange : List RowSurvey → List RowSurvey),
      config.validate = .ok () → rows.Perm (Survey.units grid) → (∀ scans, (arrange scans).Perm (Survey.pending scans)) →
      ∀ decisions, ((Survey.decideIn (.standard grid config grammar) rows arrange).run.run (tableAfter grid .empty steps)).1 =
          .ok decisions ↔
        ∃ survey, ((Survey.run (.standard grid config grammar) .never).run.run .empty).1 = .ok survey ∧
          survey.decisions = decisions := by
  have hnodup := Grid.nodup_positions hgrid
  refine ⟨answers_of_truthful hnodup truthful_empty steps, ?_⟩
  intro config grammar rows arrange hvalid hrows harrange decisions
  have houtcome := ((Survey.run_computes (c := .standard grid config grammar) rfl hnodup) .empty truthful_empty).1
  rw [houtcome]
  exact Survey.decideIn_eq_ok_iff_outcome (c := .standard grid config grammar) rfl hnodup hvalid
    (truthful_tableAfter hnodup truthful_empty steps) hrows harrange

/-- Two identifiers of one row, of which the second one does not fit its tag. -/
def pairRecords : List TokenRecord := [
  ⟨.terminal, "identifier", "x", some 0, some 0, none, none, none, "", 1⟩,
  ⟨.terminal, "identifier", "@@", some 0, some 1, none, none, none, "", 1⟩]

/-- The grid of the two identifiers. -/
def pairGrid : Grid where
  staged := false
  cells := [
    (⟨0, 0, none⟩, ⟨Grid.symbolName 1 ⟨0, 0, none⟩, .terminal, "x", "identifier", .identifier, 1, none, none, none⟩),
    (⟨0, 1, none⟩, ⟨Grid.symbolName 2 ⟨0, 1, none⟩, .terminal, "@@", "identifier", .identifier, 1, none, none, none⟩)]

/-- A session on the grid: a survey, a stricter one, the confidence of a cell, and the first survey again. -/
def pairSteps : List Step := [
  .survey .default .default,
  .survey { Config.default with thetaMin := 0.9 } .default,
  .confidence .default .default ⟨0, 1, none⟩,
  .survey .default .default]

theorem organize_pairRecords : Grid.organize pairRecords pairGrid.staged .default = .ok pairGrid :=
  Grid.organize_of_ordered (by decide +kernel) (by decide +kernel) (by decide +kernel)

/-- The session answers as with empty tables, and after it a survey that goes through its units backwards decides the same. -/
theorem answers_transparent_pair : answers pairGrid .empty pairSteps = pairSteps.map (fun step => (perform pairGrid .empty step).1) ∧
    ∀ decisions, ((Survey.decideIn (.standard pairGrid .default .default) (Survey.units pairGrid).reverse
        (fun scans => (Survey.pending scans).reverse)).run.run (tableAfter pairGrid .empty pairSteps)).1 = .ok decisions ↔
      ∃ survey, ((Survey.run (.standard pairGrid .default .default) .never).run.run .empty).1 = .ok survey ∧
        survey.decisions = decisions := by
  obtain ⟨hanswers, horder⟩ := answers_transparent organize_pairRecords pairSteps
  refine ⟨hanswers, ?_⟩
  exact horder .default .default _ _ Config.validate_default (List.reverse_perm _) (fun scans => List.reverse_perm _)

end Session

end TokenForest
