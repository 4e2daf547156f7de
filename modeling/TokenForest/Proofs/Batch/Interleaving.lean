import TokenForest.Proofs.Batch.Erased
import TokenForest.Proofs.Batch.Failures
import TokenForest.Proofs.Grid.Interleaving

/-!
# Interleaved streams have one report

With staging, streams that have the same records in the same order on every lane have grids that differ in the names of their symbols
only. No intent, no score, no choice among readings and no merge reads a name, and no report shows one; so the reports are the same.
-/

namespace TokenForest

namespace Batch

variable {records records' : List TokenRecord} {config : Config} {grammar : Grammar} {grid grid' : Grid}

/-- A run on an organized grid without a deadline is the survey of the grid and what is made of it. -/
theorem run_of_organize (hgrid : Grid.organize records config.staging.enabled grammar = .ok grid) (merging : Bool) :
    run records config grammar .standard .never merging = (do
      config.validate.mapError .config
      let survey ← Survey.outcome (.standard grid config grammar)
      ofSurvey survey grid grammar (if merging then some config.equivalenceTolerance else none)) := by
  have hsurvey : ((Survey.run (.standard grid config grammar) .never).run.run .empty).1 = Survey.outcome (.standard grid config grammar) :=
    Session.surveyAfter_eq (Grid.nodup_positions hgrid) [] config grammar
  rw [← hsurvey, run, hgrid]
  rfl

/-- A valid batch whose records have a grid comes to an end where all hints are on the list. -/
theorem exists_run_of_organize (hgrid : Grid.organize records config.staging.enabled grammar = .ok grid)
    (hvalid : config.validate = .ok ()) (hknown : ∀ r ∈ grammar.readings, r.hint.isKnown = true) (merging : Bool) :
    ∃ batch, run records config grammar .standard .never merging = .ok batch := by
  exact exists_run_of_grid hgrid hvalid hknown .never merging

/-- Grids that are the same after erasing have the same report. -/
theorem report_alike (e : Erasure config.staging) (hgrid : Grid.organize records config.staging.enabled grammar = .ok grid)
    (hgrid' : Grid.organize records' config.staging.enabled grammar = .ok grid') (h : grid.erase e.erase = grid'.erase e.erase)
    (merging : Bool) : (run records config grammar .standard .never merging).map Report.batchJson =
      (run records' config grammar .standard .never merging).map Report.batchJson := by
  have hreport : ∀ (survey : Survey) (grid : Grid) (tolerance : Option Binary64),
      (ofSurvey survey grid grammar tolerance).map Report.batchJson =
        (ofSurvey (survey.erase e.erase) (grid.erase e.erase) grammar tolerance).map Report.batchJson := by
    intro survey grid tolerance
    rw [ofSurvey_erase]
    cases ofSurvey survey grid grammar tolerance with
    | error fault => rfl
    | ok batch => exact congrArg Except.ok (Report.batchJson_erase e batch).symm
  rw [run_of_organize hgrid, run_of_organize hgrid']
  refine map_bind_congr (f := id) rfl fun _ _ _ => ?_
  refine map_bind_congr (Survey.outcome_alike h) fun survey survey' hsurvey => ?_
  rw [hreport, hsurvey, h, ← hreport]

/-- With staging, streams with the same records in the same order on every lane have grids together, and then one report: the runs stop
with the same fault or have the same report, and with a valid configuration and known hints they have one. -/
theorem run_interleaved (grammar : Grammar) (h : Grid.SameLanes records records') (hstaged : config.staging.enabled = true) :
    ((∃ grid, Grid.organize records config.staging.enabled grammar = .ok grid) ↔
      ∃ grid, Grid.organize records' config.staging.enabled grammar = .ok grid) ∧
    ∀ grid, Grid.organize records config.staging.enabled grammar = .ok grid → ∀ merging,
      (run records config grammar .standard .never merging).map Report.batchJson =
        (run records' config grammar .standard .never merging).map Report.batchJson ∧
      (config.validate = .ok () → (∀ r ∈ grammar.readings, r.hint.isKnown = true) → ∃ batch batch',
        run records config grammar .standard .never merging = .ok batch ∧
          run records' config grammar .standard .never merging = .ok batch') := by
  rw [hstaged]
  have hsymm : Grid.SameLanes records' records := fun lane => (h lane).symm
  refine ⟨⟨h.exists_organize, hsymm.exists_organize⟩, ?_⟩
  intro grid hgrid merging
  obtain ⟨grid', hgrid'⟩ := h.exists_organize ⟨grid, hgrid⟩
  have hsame : grid.erase Symbol.nameless = grid'.erase Symbol.nameless := h.nameless_eq hgrid hgrid'
  rw [← hstaged] at hgrid hgrid'
  refine ⟨report_alike (.names config.staging) hgrid hgrid' hsame merging, ?_⟩
  intro hvalid hknown
  obtain ⟨batch, hbatch⟩ := exists_run_of_organize hgrid hvalid hknown merging
  obtain ⟨batch', hbatch'⟩ := exists_run_of_organize hgrid' hvalid hknown merging
  exact ⟨batch, batch', hbatch, hbatch'⟩

/-- The default configuration with staging. -/
def stagedConfig : Config := { Config.default with staging := { Staging.off with enabled := true } }

/-- An identifier and one that does not fit its tag on a lane, and then an identifier on another one. -/
def laneByLane : List TokenRecord := [
  ⟨.terminal, "identifier", "x", none, none, some 0, none, none, "", 1⟩,
  ⟨.terminal, "identifier", "@@", none, none, some 0, none, none, "", 1⟩,
  ⟨.terminal, "identifier", "y", none, none, some 1, none, none, "", 1⟩]

/-- The identifiers with the other lane in between. -/
def laneBetween : List TokenRecord := [
  ⟨.terminal, "identifier", "x", none, none, some 0, none, none, "", 1⟩,
  ⟨.terminal, "identifier", "y", none, none, some 1, none, none, "", 1⟩,
  ⟨.terminal, "identifier", "@@", none, none, some 0, none, none, "", 1⟩]

/-- The two streams have one report, merged. -/
theorem run_interleaved_between : Grid.SameLanes laneByLane laneBetween ∧ ∃ batch batch',
    run laneByLane stagedConfig .default .standard .never true = .ok batch ∧
    run laneBetween stagedConfig .default .standard .never true = .ok batch' ∧ Report.batchJson batch = Report.batchJson batch' := by
  have hlanes : Grid.SameLanes laneByLane laneBetween := Grid.sameLanes_swap (by decide) laneByLane.dropLast.dropLast []
  have hfacts : stagedConfig.validate = .ok () ∧ (Grid.organize laneByLane stagedConfig.staging.enabled .default).isOk = true := by
    decide +kernel
  obtain ⟨hvalid, hok⟩ := hfacts
  cases hgrid : Grid.organize laneByLane stagedConfig.staging.enabled .default with
  | error fault =>
    rw [hgrid] at hok
    cases hok
  | ok grid =>
    have hstaged : stagedConfig.staging.enabled = true := rfl
    obtain ⟨hreport, hends⟩ := (run_interleaved .default hlanes hstaged).2 grid hgrid true
    obtain ⟨batch, batch', hbatch, hbatch'⟩ := hends hvalid Session.known_default
    rw [hbatch, hbatch'] at hreport
    exact ⟨hlanes, batch, batch', hbatch, hbatch', Except.ok.inj hreport⟩

end Batch

end TokenForest
