import TokenForest.Proofs.Session
import TokenForest.Proofs.Survey.Alike

/-!
# Decisions are local

What a survey decides on a position is read off its neighbourhood. Two grids in which the neighbourhood of a position and the symbols of
the neighbourhood are the same have the same decision there, whatever else is in them and has been evaluated on them.
-/

namespace TokenForest

namespace Survey

theorem erase_nothing (d : Decision) (staging : Staging) : d.erase (Erasure.nothing staging).erase = d := by
  cases d
  simp [Decision.erase, Erasure.nothing]

/-- Where nothing is erased, the verdicts are the same. -/
theorem verdict_local {grid grid' : Grid} {config : Config} {p : Position} (grammar : Grammar)
    (h : grid.AlikeAt (.nothing config.staging) grid' p) :
    verdict (.standard grid config grammar) p = verdict (.standard grid' config grammar) p := by
  have hsame : (verdict (.standard grid config grammar) p).map (Decision.erase (Erasure.nothing config.staging).erase) =
      (verdict (.standard grid' config grammar) p).map (Decision.erase (Erasure.nothing config.staging).erase) := verdict_alike h
  have hid : ∀ x : Except Fault Decision, x.map (Decision.erase (Erasure.nothing config.staging).erase) = x := by
    intro x
    cases x with
    | error fault => rfl
    | ok d => exact congrArg Except.ok (erase_nothing d config.staging)
  rw [hid, hid] at hsame
  exact hsame

open Session in
/-- A survey that has a result has one decision on each position of its grid, the verdict. -/
theorem exists_decision_at {records : List TokenRecord} {staged : Bool} {source : Grammar} {grid : Grid}
    (hgrid : Grid.organize records staged source = .ok grid) {config : Config} (hvalid : config.validate = .ok ())
    {steps : List Step} {grammar : Grammar} {survey : Survey} (h : surveyAfter grid steps config grammar = .ok survey)
    {p : Position} (hp : p ∈ grid.positions) : ∃ d, verdict (.standard grid config grammar) p = .ok d ∧
      survey.decisions.filter (fun d => decide (d.position = p)) = [d] := by
  obtain ⟨hpositions, hverdict⟩ := positions_and_verdicts hgrid hvalid h
  rw [← hpositions] at hp
  obtain ⟨d, hd, rfl⟩ := List.mem_map.1 hp
  refine ⟨d, hverdict d hd, filter_eq_singleton ?_ hd⟩
  rw [hpositions]
  exact Grid.nodup_positions hgrid

open Session in
/-- Surveys of two grids have the same decision on a position that has one neighbourhood in both, with the same symbols. -/
theorem run_local {grid grid' : Grid} {records records' : List TokenRecord} {staged staged' : Bool} {source source' : Grammar}
    (hgrid : Grid.organize records staged source = .ok grid) (hgrid' : Grid.organize records' staged' source' = .ok grid')
    {config : Config} (hvalid : config.validate = .ok ()) (grammar : Grammar) {p : Position} (hp : p ∈ grid.positions)
    (hp' : p ∈ grid'.positions) (hneighborhood : grid.neighborhood p = grid'.neighborhood p)
    (hsymbols : ∀ q, (grid.neighborhood p).covers q = true → grid.symbolAt? q = grid'.symbolAt? q) (before before' : List Step) :
    Concludes (.standard grid config grammar) (surveyAfter grid before config grammar) ∧
    Concludes (.standard grid' config grammar) (surveyAfter grid' before' config grammar) ∧
    ∀ survey survey', surveyAfter grid before config grammar = .ok survey → surveyAfter grid' before' config grammar = .ok survey' →
      ∃ d, survey.decisions.filter (fun d => decide (d.position = p)) = [d] ∧
        survey'.decisions.filter (fun d => decide (d.position = p)) = [d] := by
  refine ⟨concludes_surveyAfter hgrid hvalid before grammar, concludes_surveyAfter hgrid' hvalid before' grammar, ?_⟩
  intro survey survey' h h'
  have halike : grid.AlikeAt (.nothing config.staging) grid' p := ⟨hneighborhood, fun q hq => congrArg _ (hsymbols q hq)⟩
  obtain ⟨d, hd, hfilter⟩ := exists_decision_at hgrid hvalid h hp
  obtain ⟨d', hd', hfilter'⟩ := exists_decision_at hgrid' hvalid h' hp'
  rw [verdict_local grammar halike] at hd
  cases hd.symm.trans hd'
  exact ⟨d, hfilter, hfilter'⟩

/-- The two identifiers with another one two rows below. -/
def farRecords : List TokenRecord :=
  Session.pairRecords ++ [⟨.terminal, "identifier", "y", some 2, some 0, none, none, none, "", 1⟩]

/-- The grid of the three identifiers. -/
def farGrid : Grid where
  staged := false
  cells := Session.pairGrid.cells ++ [
    (⟨2, 0, none⟩, ⟨Grid.symbolName 3 ⟨2, 0, none⟩, .terminal, "y", "identifier", .identifier, 1, none, none, none⟩)]

open Session in
/-- The identifier that does not fit its tag has one decision in both grids. -/
theorem run_local_pair : Session.pairGrid.neighborhood ⟨0, 1, none⟩ = farGrid.neighborhood ⟨0, 1, none⟩ ∧ ∃ survey survey' d,
    surveyAfter pairGrid [] .default .default = .ok survey ∧ surveyAfter farGrid [] .default .default = .ok survey' ∧
    survey.decisions.filter (fun d => decide (d.position = ⟨0, 1, none⟩)) = [d] ∧
    survey'.decisions.filter (fun d => decide (d.position = ⟨0, 1, none⟩)) = [d] := by
  have hgrid' : Grid.organize farRecords farGrid.staged .default = .ok farGrid :=
    Grid.organize_of_ordered (by decide +kernel) (by decide +kernel) (by decide +kernel)
  have hviews : pairGrid.neighborhood ⟨0, 1, none⟩ = farGrid.neighborhood ⟨0, 1, none⟩ ∧
      pairGrid.neighborhood ⟨0, 1, none⟩ = ⟨⟨0, 1, none⟩, [⟨0, 0, none⟩, ⟨0, 1, none⟩], [], []⟩ ∧
      ∀ q ∈ pairGrid.positions, pairGrid.symbolAt? q = farGrid.symbolAt? q := by
    decide +kernel
  obtain ⟨hneighborhood, hrow, hcells⟩ := hviews
  have hsymbols : ∀ q, (pairGrid.neighborhood ⟨0, 1, none⟩).covers q = true → pairGrid.symbolAt? q = farGrid.symbolAt? q := by
    intro q hq
    rw [hrow] at hq
    simp [Grid.Neighborhood.covers] at hq
    exact hcells q (by rcases hq with rfl | rfl | rfl <;> decide)
  obtain ⟨hends, hends', hlocal⟩ := run_local organize_pairRecords hgrid' Config.validate_default .default (by decide) (by decide)
    hneighborhood hsymbols [] []
  obtain ⟨survey, hsurvey⟩ := hends.exists_ok known_default
  obtain ⟨survey', hsurvey'⟩ := hends'.exists_ok known_default
  obtain ⟨d, hd, hd'⟩ := hlocal survey survey' hsurvey hsurvey'
  exact ⟨hneighborhood, survey, survey', d, hsurvey, hsurvey', hd, hd'⟩

end Survey

end TokenForest
