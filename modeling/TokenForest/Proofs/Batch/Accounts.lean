import TokenForest.Batch
import TokenForest.Batch.Results
import TokenForest.Proofs.Assembly.Mirrored
import TokenForest.Proofs.Assembly.Tokens
import TokenForest.Proofs.Config.Valid
import TokenForest.Proofs.Forest.Merged
import TokenForest.Proofs.Forest.Unfolding
import TokenForest.Proofs.Grid.Placement
import TokenForest.Proofs.Session
import TokenForest.Proofs.Survey.Coverage

/-!
# What becomes of every token

A batch that is not merged accounts for every record: its position has one decision, and it is either one entry for review or
one terminal of the forest, unless a node that it needs was left out at the gate with a note.
-/

namespace TokenForest

theorem Forest.map_info_terminalsAt (f : Forest) (p : Position) : (f.terminalsAt p).map (fun i => (f.node i).info) =
    (SyntaxTree.terminals f.trees).filter (fun info => decide (info.position = some p)) := by
  rw [SyntaxTree.terminals, ← Forest.map_info_preorder, List.filter_filter, List.filter_map, Forest.terminalsAt]
  congr 2
  funext i
  exact Bool.and_comm _ _

namespace Batch

variable {records : List TokenRecord} {config : Config} {grammar : Grammar} {scorer : Scorer} {deadline : Deadline}
  {batch : Batch} {p : Position} {d : Decision}

/-! ## Helpers -/

/-- No node of a surveyed grid fails its check, so its result is that of the forest as it is assembled. -/
theorem ofSurvey_eq (survey : Survey) (grid : Grid) (tolerance : Option Binary64) :
    ofSurvey survey grid grammar tolerance = ofAssembly (Assembly.ofDecisions survey.decisions grid grammar) survey tolerance := by
  rw [ofSurvey, Assembly.build_eq]
  rfl

/-- How a batch came to its end: its configuration is valid, its records have a grid, the grid has a survey, and a forest is
assembled of what was decided. -/
theorem exists_survey_of_run {merging : Bool} (h : run records config grammar scorer deadline merging = .ok batch) :
    ∃ grid survey, config.validate = .ok () ∧ Grid.organize records config.staging.enabled grammar = .ok grid ∧
      ((Survey.run ⟨grid, config, grammar, scorer⟩ deadline).run.run .empty).1 = .ok survey ∧
      ofAssembly (Assembly.ofDecisions survey.decisions grid grammar) survey
        (if merging then some config.equivalenceTolerance else none) = .ok batch := by
  obtain ⟨_, hvalid, h⟩ := ok_of_bind h
  obtain ⟨grid, hgrid, h⟩ := ok_of_bind h
  obtain ⟨survey, hsurvey, h⟩ := ok_of_bind h
  rw [ofSurvey_eq] at h
  exact ⟨grid, survey, ok_of_mapError hvalid, ok_of_mapError hgrid, hsurvey, h⟩

/-- What a batch that is not merged is made of. -/
theorem run_eq_ok (h : run records config grammar scorer deadline false = .ok batch) :
    ∃ grid survey, Grid.organize records config.staging.enabled grammar = .ok grid ∧
      (Survey.run ⟨grid, config, grammar, scorer⟩ deadline).Produces survey ∧ batch.survey = survey ∧
      batch.manualReview = reviewEntries survey.decisions ∧
      batch.forest = Forest.ofTrees (Assembly.ofDecisions survey.decisions grid grammar).roots ∧
      batch.mismatches = (Assembly.ofDecisions survey.decisions grid grammar).notes.mismatches := by
  obtain ⟨grid, survey, _, hgrid, hsurvey, h⟩ := exists_survey_of_run h
  cases h
  exact ⟨grid, survey, hgrid, Evaluating.produces_of_run hsurvey, rfl, rfl, rfl, rfl⟩

/-- Merging under a tolerance, when one is given, succeeds. -/
theorem exists_mapM_merge {tolerance : Option Binary64} (h : ∀ t ∈ tolerance, Config.isTolerance t = true) (built : Forest) :
    ∃ merge, tolerance.mapM built.merge = .ok merge := by
  cases tolerance with
  | none => exact ⟨none, rfl⟩
  | some t =>
    have hmerge := built.merge_eq (h t rfl)
    refine ⟨some ⟨built.quotient t, built.reported (built.classes t), built.count, (built.quotient t).count⟩, ?_⟩
    change some <$> built.merge t = _
    rw [hmerge]
    rfl

/-- A valid batch comes to an end when its grid and its survey do. -/
theorem exists_run {merging : Bool} {grid : Grid} {survey : Survey} (hvalid : config.validate = .ok ())
    (hgrid : Grid.organize records config.staging.enabled grammar = .ok grid)
    (hsurvey : ((Survey.run ⟨grid, config, grammar, scorer⟩ deadline).run.run .empty).1 = .ok survey) :
    ∃ batch, run records config grammar scorer deadline merging = .ok batch := by
  have htolerance : ∀ t ∈ if merging then some config.equivalenceTolerance else none, Config.isTolerance t = true := by
    cases merging with
    | false =>
      intro t ht
      cases ht
    | true =>
      intro t ht
      cases ht
      exact (Config.valid_of_validate hvalid).tolerance
  obtain ⟨batch, hbatch⟩ : ∃ batch, ofSurvey survey grid grammar (if merging then some config.equivalenceTolerance else none) =
      .ok batch := by
    obtain ⟨merge, hmerge⟩ := exists_mapM_merge htolerance (Forest.ofTrees (Assembly.ofDecisions survey.decisions grid grammar).roots)
    rw [ofSurvey_eq]
    unfold ofAssembly
    simp only [hmerge]
    exact ⟨_, rfl⟩
  refine ⟨batch, ?_⟩
  rw [run, hvalid, hgrid]
  change (((Survey.run ⟨grid, config, grammar, scorer⟩ deadline).run.run .empty).1 >>= fun survey =>
    ofSurvey survey grid grammar (if merging then some config.equivalenceTolerance else none)) = _
  rw [hsurvey]
  exact hbatch

/-- A run on an organized grid with a valid configuration and known hints comes to an end, whenever the deadline passes. -/
theorem exists_run_of_grid {grid : Grid} (hgrid : Grid.organize records config.staging.enabled grammar = .ok grid)
    (hvalid : config.validate = .ok ()) (hknown : ∀ r ∈ grammar.readings, r.hint.isKnown = true) (deadline : Deadline)
    (merging : Bool) : ∃ batch, run records config grammar .standard deadline merging = .ok batch := by
  have hsound := Session.sound_standard hgrid hvalid grammar
  rcases Survey.steps_or_misread hsound deadline .empty with
    ⟨scans, memo', resolved, memo'', hscan, hsettle⟩ | ⟨fault, _, hmisread⟩
  · obtain ⟨survey, hrun, _⟩ := Survey.run_of_steps hsound hscan hsettle
    exact exists_run hvalid hgrid hrun.answer
  · exact absurd hmisread (Session.not_misread hknown)

/-- The entries for review at a position with one decision. -/
theorem filter_reviewEntries {decisions : List Decision} (h : decisions.filter (fun d => decide (d.position = p)) = [d]) :
    (reviewEntries decisions).filter (fun e => decide (e.position = p)) =
      if d.status.isExcluded then [⟨d.position, d.original.lexeme, d.original.typeTag, d.bestConfidence, d.reasonCodes⟩]
      else [] := by
  have hexcluded : (decisions.filter (fun d => d.status.isExcluded)).filter (fun d => decide (d.position = p)) =
      [d].filter (fun d => d.status.isExcluded) := by
    rw [← h, List.filter_filter, List.filter_filter]
    congr 1
    funext e
    exact Bool.and_comm _ _
  rw [reviewEntries, List.filter_map]
  change ((decisions.filter (fun d => d.status.isExcluded)).filter (fun d => decide (d.position = p))).map _ = _
  rw [hexcluded]
  by_cases hd : d.status.isExcluded = true <;> simp [hd]

theorem not_excluded_of_admitted (h : d.status.isAdmitted = true) : d.status.isExcluded = false := by
  cases hs : d.status <;> rw [hs] at h <;> first | rfl | cases h

/-- An admitted decision carries its symbol. -/
theorem exists_symbol_of_admitted (h : d.status.isAdmitted = true) : ∃ s, d.symbol = some s := by
  have hcoherent := d.coherent
  cases hs : d.symbol with
  | none => simp [Decision.fault?, h, hs] at hcoherent
  | some s => exact ⟨s, rfl⟩

/-! ## Accounts -/

section

variable {grid : Grid} {decisions : List Decision}
  (hentries : batch.manualReview = reviewEntries decisions)
  (hforest : batch.forest = Forest.ofTrees (Assembly.ofDecisions decisions grid grammar).roots)
  (hd : decisions.filter (fun d => decide (d.position = p)) = [d])

include hforest in
/-- The terminals at a position are those of the assembled trees. -/
theorem map_info_terminalsAt_forest : (batch.forest.terminalsAt p).map (fun i => (batch.forest.node i).info) =
    (SyntaxTree.terminals (Assembly.ofDecisions decisions grid grammar).roots).filter
      (fun info => decide (info.position = some p)) := by
  have hinfos := Forest.map_info_terminalsAt batch.forest p
  rw [hforest, (Forest.adds_ofTrees _).2] at hinfos
  rw [hforest]
  exact hinfos

include hentries hforest hd in
/-- The account of a position whose symbol is admitted. -/
theorem accounted_of_admitted (hnodup : grid.positions.Nodup)
    (hmismatches : batch.mismatches = (Assembly.ofDecisions decisions grid grammar).notes.mismatches)
    (hp : p ∈ grid.positions) (hstatus : d.status.isAdmitted = true) : Accounted batch p d := by
  have hinfos := map_info_terminalsAt_forest (p := p) hforest
  have hentry : ∀ e ∈ batch.manualReview, e.position ≠ p := by
    have hreview := filter_reviewEntries hd
    rw [← hentries, not_excluded_of_admitted hstatus] at hreview
    simpa using hreview
  obtain ⟨s, hs⟩ := exists_symbol_of_admitted hstatus
  have hitem : ⟨p, s, d.finalPsi, .unresolved⟩ ∈ Assembly.admittedSymbols decisions grid := by
    refine Assembly.mem_admittedSymbols.2 ⟨hp, ?_⟩
    rw [Assembly.admittedAt?_eq hd, if_pos hstatus, hs, Option.map_some]
  have hplaced := (Assembly.ofDecisions_spec decisions grid grammar).2
  rcases hplaced.filter_eq (Assembly.nodup_admittedSymbols hnodup) hitem with ⟨intent, hone⟩ | ⟨hnone, hlost⟩
  · rw [hone, List.map_eq_singleton_iff] at hinfos
    obtain ⟨i, hterminal, hinfo⟩ := hinfos
    refine .present hstatus hentry hterminal ?_ ?_
    · rw [hinfo, hs]
      rfl
    · rw [hinfo]
      rfl
  · rw [hnone, List.map_eq_nil_iff] at hinfos
    refine .leftOut hstatus hentry hinfos ?_
    rw [hmismatches]
    exact hlost

include hentries hforest hd in
/-- The account of a position that is excluded. -/
theorem accounted_of_excluded (hstatus : d.status.isExcluded = true) : Accounted batch p d := by
  have hinfos := map_info_terminalsAt_forest (p := p) hforest
  have hreview := filter_reviewEntries hd
  rw [← hentries, if_pos hstatus] at hreview
  have hnot : ¬d.status.isAdmitted = true := by
    intro hadmitted
    rw [not_excluded_of_admitted hadmitted] at hstatus
    cases hstatus
  refine .excluded hstatus ⟨_, hreview⟩ ?_
  have hplaced := (Assembly.ofDecisions_spec decisions grid grammar).2
  rw [hplaced.filter_eq_nil, List.map_eq_nil_iff] at hinfos
  · exact hinfos
  · intro item hitem hposition
    have hsome := (Assembly.mem_admittedSymbols.1 hitem).2
    rw [hposition, Assembly.admittedAt?_eq hd, if_neg hnot] at hsome
    cases hsome

end

/-- A batch that comes to an end without merging accounts for every record: each record has a cell of its own, its position has
exactly one decision, and the position is one entry for review, or one terminal on one path of the forest, or noted among the
nodes left out. -/
theorem run_accounts (h : run records config grammar scorer deadline false = .ok batch) :
    batch.forest.WellFormed ∧ ∃ places : List (Position × Symbol), places.length = records.length ∧ (places.map (·.1)).Nodup ∧
      (∀ k (hk : k < records.length) (hk' : k < places.length),
        Grid.CellOf config.staging.enabled grammar (k + 1) records[k] places[k]) ∧
      ∀ place ∈ places, ∃ d, batch.survey.decisions.filter (fun d => decide (d.position = place.1)) = [d] ∧
        Accounted batch place.1 d := by
  obtain ⟨grid, survey, hgrid, hsurvey, rfl, hentries, hforest, hmismatches⟩ := run_eq_ok h
  obtain ⟨places, hlength, hcells, hnodup, hplaces⟩ := Grid.organize_eq_ok hgrid
  obtain ⟨hcover, hfinal⟩ := Survey.run_covers hsurvey
  have hpositions : grid.positions.Perm (places.map (·.1)) := hcells.map Prod.fst
  have hgridnodup : grid.positions.Nodup := hpositions.nodup_iff.2 hnodup
  refine ⟨?_, places, hlength, hnodup, hplaces, fun place hplace => ?_⟩
  · rw [hforest]
    exact (Forest.adds_ofTrees _).1
  · have hp : place.1 ∈ grid.positions := hpositions.mem_iff.2 (List.mem_map_of_mem hplace)
    obtain ⟨d, hd, hposition⟩ := List.mem_map.1 (hcover.mem_iff.2 hp)
    have hone : batch.survey.decisions.filter (fun e => decide (e.position = place.1)) = [d] := by
      rw [← hposition]
      exact filter_eq_singleton (hcover.nodup_iff.2 hgridnodup) hd
    refine ⟨d, hone, ?_⟩
    rcases hfinal d hd with hstatus | hstatus
    · exact accounted_of_admitted hentries hforest hone hgridnodup hmismatches hp hstatus
    · exact accounted_of_excluded hentries hforest hone hstatus

/-- Two records in one row, of which the second is no identifier. -/
def twoRecords : List TokenRecord := [
  ⟨.terminal, "identifier", "x", none, none, none, none, none, "", 1⟩,
  ⟨.terminal, "identifier", "@@", none, none, none, none, none, "", 1⟩]

/-- The grid of the two records. -/
def twoGrid : Grid where
  staged := false
  cells := [
    (⟨0, 0, none⟩, ⟨Grid.symbolName 1 ⟨0, 0, none⟩, .terminal, "x", "identifier", .identifier, 1, none, none, none⟩),
    (⟨0, 1, none⟩, ⟨Grid.symbolName 2 ⟨0, 1, none⟩, .terminal, "@@", "identifier", .identifier, 1, none, none, none⟩)]

theorem organize_twoRecords : Grid.organize twoRecords twoGrid.staged .default = .ok twoGrid :=
  Grid.organize_of_ordered (by decide +kernel) (by decide +kernel) (by decide +kernel)

/-- The batch of the two records comes to an end, merged or not. -/
theorem exists_run_twoRecords (merging : Bool) :
    ∃ batch, run twoRecords .default .default .standard .never merging = .ok batch := by
  have hgrid : Grid.organize twoRecords Config.default.staging.enabled .default = .ok twoGrid := organize_twoRecords
  exact exists_run_of_grid hgrid Config.validate_default Session.known_default .never merging

/-- Both records of the batch are accounted for. -/
theorem run_accounts_twoRecords : ∃ batch, run twoRecords .default .default .standard .never false = .ok batch ∧
    batch.forest.WellFormed ∧ ∃ places : List (Position × Symbol), places.length = 2 ∧ (places.map (·.1)).Nodup ∧
      (∀ k (hk : k < twoRecords.length) (hk' : k < places.length),
        Grid.CellOf false .default (k + 1) twoRecords[k] places[k]) ∧
      ∀ place ∈ places, ∃ d, batch.survey.decisions.filter (fun d => decide (d.position = place.1)) = [d] ∧
        Accounted batch place.1 d := by
  obtain ⟨batch, h⟩ := exists_run_twoRecords false
  exact ⟨batch, h, run_accounts h⟩

end Batch

end TokenForest
