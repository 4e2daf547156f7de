import TokenForest.Proofs.Resolution.Alike
import TokenForest.Proofs.Survey.Outcome

/-!
# What a survey reads

What a survey decides on a position is read off its neighbourhood: where two grids are alike, the verdicts are the same after erasing.
Grids that are the same after erasing are alike everywhere, and have the same survey after erasing.
-/

namespace TokenForest

/-- The scan of a row after erasing the symbols of its decisions. -/
def RowSurvey.erase (f : Symbol → Symbol) (s : RowSurvey) : RowSurvey := { s with decisions := s.decisions.map (Decision.erase f) }

/-- A survey after erasing the symbols of its decisions. -/
def Survey.erase (f : Symbol → Symbol) (s : Survey) : Survey := { s with decisions := s.decisions.map (Decision.erase f) }

namespace Survey

/-! ## Verdicts -/

/-- What is left of a judged symbol after erasing. -/
def eraseJudged (f : Symbol → Symbol) (j : Binary64 × Except Position Decision) : Binary64 × Except Position Decision :=
  (j.1, j.2.map (Decision.erase f))

section

variable {grid grid' : Grid} {config : Config} {grammar : Grammar} {p : Position} {e : Erasure config.staging}
  (h : grid.AlikeAt e grid' p)

include h

/-- An accepted symbol is accepted whatever is erased. -/
theorem judged_alike {s s' : Symbol} (hs : e.erase s = e.erase s') (b : Breakdown) :
    (judged (.standard grid config grammar) p s b).map (Decision.erase e.erase) =
      (judged (.standard grid' config grammar) p s' b).map (Decision.erase e.erase) := by
  have hjudged : ∀ (c : Context) (s : Symbol), (judged c p s b).map (Decision.erase e.erase) = judged c p (e.erase s) b := by
    intro c s
    unfold judged
    simp only
    by_cases hreached : c.config.threshold (c.intentAt p) ≤ b.psi ∧ b.components.reaches c.config.componentMinimums
    · rw [if_pos hreached, if_pos hreached]
      rfl
    · rw [if_neg hreached, if_neg hreached]
      rfl
  rw [hjudged, hjudged, hs]
  unfold judged
  rw [Context.intentAt_alike h]
  rfl

/-- A position is appraised by its neighbourhood. -/
theorem appraise_alike : (appraise (.standard grid config grammar) p).map (eraseJudged e.erase) =
    (appraise (.standard grid' config grammar) p).map (eraseJudged e.erase) := by
  unfold appraise
  refine map_bind_congr (Context.symbolAt_alike h) fun s s' hs => ?_
  refine map_bind_congr (f := id) (congrArg _ (Context.breakdown_alike h hs)) ?_
  rintro b _ rfl
  exact congrArg (fun j => Except.ok (b.psi, j)) (judged_alike h hs b)

/-- A flagged position is settled by its neighbourhood. -/
theorem settlement_alike : (settlement (.standard grid config grammar) p).map (Decision.erase e.erase) =
    (settlement (.standard grid' config grammar) p).map (Decision.erase e.erase) := by
  unfold settlement
  refine map_bind_congr (Context.symbolAt_alike h) fun s s' hs => ?_
  refine map_bind_congr (f := id) (congrArg _ (Context.breakdown_alike h hs)) ?_
  rintro original _ rfl
  refine map_bind_congr (Resolution.outcome_alike h) fun r r' hr => ?_
  have hsettle : ∀ (grid : Grid) (s : Symbol) (r : Resolution), (settle (.standard grid config grammar) p s original r).erase e.erase =
      settle (.standard grid config grammar) p (e.erase s) original (r.erase e.erase) := by
    intro grid s r
    unfold settle Resolution.erase
    cases r.chosen <;> rfl
  change Except.ok ((settle _ p s original r).erase e.erase) = Except.ok ((settle _ p s' original r').erase e.erase)
  rw [hsettle, hsettle, hs, hr]
  rfl

/-- The verdict on a position is read off its neighbourhood. -/
theorem verdict_alike : (verdict (.standard grid config grammar) p).map (Decision.erase e.erase) =
    (verdict (.standard grid' config grammar) p).map (Decision.erase e.erase) := by
  unfold verdict
  refine map_bind_congr (appraise_alike h) ?_
  rintro ⟨psi, j⟩ ⟨psi', j'⟩ hj
  rw [Prod.mk.injEq] at hj
  cases j with
  | ok d =>
    cases j' with
    | ok d' =>
      have hd : Except.ok (ε := Position) (d.erase e.erase) = .ok (d'.erase e.erase) := hj.2
      exact congrArg Except.ok (Except.ok.inj hd)
    | error q => cases hj.2
  | error q =>
    cases j' with
    | ok d' => cases hj.2
    | error q' => exact settlement_alike h

end

/-! ## Putting surveys together -/

variable (f : Symbol → Symbol)

theorem scannedBy_map (average : List Binary64 → Binary64) (c : Context) (lane : Lane) (row : Nat) (judged : List (Binary64 × Except Position Decision)) :
    scannedBy average c lane row (judged.map (eraseJudged f)) = (scannedBy average c lane row judged).erase f := by
  have haccepted : accepted (judged.map (eraseJudged f)) = (accepted judged).map (Decision.erase f) := by
    unfold accepted
    rw [List.filterMap_map, List.map_filterMap]
    congr 1
    funext j
    rcases j with ⟨psi, q | d⟩ <;> rfl
  have hflagged : flagged (judged.map (eraseJudged f)) = flagged judged := by
    unfold flagged
    rw [List.filterMap_map]
    congr 1
    funext j
    rcases j with ⟨psi, q | d⟩ <;> rfl
  unfold scannedBy RowSurvey.erase
  rw [haccepted, hflagged, List.map_map, List.length_map]
  rfl

theorem pending_map (scans : List RowSurvey) : pending (scans.map (RowSurvey.erase f)) = (pending scans).map (RowSurvey.erase f) := by
  unfold pending
  simp only [List.filter_map, List.map_append]
  rfl

theorem decided_map (scans : List RowSurvey) (resolved : List (List Decision)) :
    decided (scans.map (RowSurvey.erase f)) (resolved.map (List.map (Decision.erase f))) =
      (decided scans resolved).map (Decision.erase f) := by
  unfold decided
  rw [List.map_append, List.map_flatMap, List.flatMap_map, List.map_flatten]
  rfl

theorem decidedTwice?_map (decisions : List Decision) : decidedTwice? (decisions.map (Decision.erase f)) = decidedTwice? decisions := by
  induction decisions with
  | nil => rfl
  | cons d rest ih =>
    rw [List.map_cons, decidedTwice?, decidedTwice?, ih, List.any_map]
    rfl

theorem inOrder_map (decisions : List Decision) : inOrder (decisions.map (Decision.erase f)) = (inOrder decisions).map (Decision.erase f) :=
  (List.map_mergeSort (f := Decision.erase f) fun _ _ _ _ => rfl).symm

/-! ## Whole surveys -/

section

variable {grid grid' : Grid} {config : Config} {grammar : Grammar} {e : Erasure config.staging}
  (h : grid.erase e.erase = grid'.erase e.erase)

theorem deltas_erase (e : Erasure config.staging) (grid : Grid) (grammar : Grammar) (ps : List Position) :
    Balance.deltas (grid.erase e.erase) grammar ps = Balance.deltas grid grammar ps := by
  unfold Balance.deltas
  apply List.map_congr_left
  intro p _
  rw [Grid.symbolAt?_erase]
  cases grid.symbolAt? p with
  | none => rfl
  | some s => simp only [Option.map_some, Option.elim_some, e.lexeme]

include h

/-- The brackets balance alike. -/
theorem balance_alike (lane : Lane) : Balance.columnProfiles grid grammar lane = Balance.columnProfiles grid' grammar lane ∧
    Balance.ofLane grid grammar lane = Balance.ofLane grid' grammar lane := by
  have hcolumns : ∀ grid : Grid, Balance.columnProfiles (grid.erase e.erase) grammar lane = Balance.columnProfiles grid grammar lane := by
    intro grid
    unfold Balance.columnProfiles Balance.columnProfile
    rw [Grid.columns_erase]
    simp only [Grid.columnPositions_erase, deltas_erase]
  have hlane : ∀ grid : Grid, Balance.ofLane (grid.erase e.erase) grammar lane = Balance.ofLane grid grammar lane := by
    intro grid
    have hrows : (grid.erase e.erase).rowPositions lane = grid.rowPositions lane :=
      funext fun row => Grid.rowPositions_erase e.erase grid lane row
    unfold Balance.ofLane Balance.laneOrder
    simp only [Grid.rows_erase, hrows, deltas_erase]
  rw [← hcolumns grid, ← hlane grid, h, hcolumns, hlane]
  exact ⟨rfl, rfl⟩

theorem scan_alike (unit : Lane × Nat) : (scan (.standard grid config grammar) unit).map (RowSurvey.erase e.erase) =
    (scan (.standard grid' config grammar) unit).map (RowSurvey.erase e.erase) := by
  have hrow : grid.rowPositions unit.1 unit.2 = grid'.rowPositions unit.1 unit.2 := by
    rw [← Grid.rowPositions_erase e.erase, h, Grid.rowPositions_erase]
  unfold scan scanBy Context.standard
  simp only
  rw [hrow]
  refine map_bind_congr (map_mapM_congr fun p _ => appraise_alike (Grid.alikeAt_of_erase h p)) fun js js' hjs => ?_
  change Except.ok ((scannedBy _ _ unit.1 unit.2 js).erase e.erase) = Except.ok ((scannedBy _ _ unit.1 unit.2 js').erase e.erase)
  rw [← scannedBy_map, ← scannedBy_map, hjs]
  rfl

/-- The flagged positions of the rows are settled alike. -/
theorem settled_alike {scans scans' : List RowSurvey} (hscans : scans.map (RowSurvey.erase e.erase) = scans'.map (RowSurvey.erase e.erase)) :
    ((pending scans).mapM (fun s : RowSurvey => s.flagged.mapM (settlement (.standard grid config grammar)))).map
        (List.map (List.map (Decision.erase e.erase))) =
      ((pending scans').mapM (fun s : RowSurvey => s.flagged.mapM (settlement (.standard grid' config grammar)))).map
        (List.map (List.map (Decision.erase e.erase))) := by
  have hflagged : (pending scans).map (·.flagged) = (pending scans').map (·.flagged) := by
    have hpending := congrArg (List.map RowSurvey.flagged) (congrArg pending hscans)
    rw [pending_map, pending_map, List.map_map, List.map_map] at hpending
    exact hpending
  have hmap : ∀ (c : Context) (scans : List RowSurvey), scans.mapM (fun s => s.flagged.mapM (settlement c)) =
      (scans.map (·.flagged)).mapM (fun ps => ps.mapM (settlement c)) := by
    intro c scans
    rw [List.mapM_map]
    rfl
  rw [hmap, hmap, hflagged]
  exact map_mapM_congr fun ps _ => map_mapM_congr fun p _ => settlement_alike (Grid.alikeAt_of_erase h p)

theorem ofPhases_alike {scans scans' : List RowSurvey} {resolved resolved' : List (List Decision)}
    (hscans : scans.map (RowSurvey.erase e.erase) = scans'.map (RowSurvey.erase e.erase))
    (hdecided : (decided scans resolved).map (Decision.erase e.erase) = (decided scans' resolved').map (Decision.erase e.erase)) :
    (ofPhases (.standard grid config grammar) scans resolved).erase e.erase =
      (ofPhases (.standard grid' config grammar) scans' resolved').erase e.erase := by
  have hprofiles : scans.map (·.profile) = scans'.map (·.profile) := by
    have hmapped := congrArg (List.map RowSurvey.profile) hscans
    rw [List.map_map, List.map_map] at hmapped
    exact hmapped
  have hlanes : grid.lanes = grid'.lanes := by rw [← Grid.lanes_erase e.erase, h, Grid.lanes_erase]
  unfold ofPhases erase Context.standard
  simp only
  rw [← inOrder_map, ← inOrder_map, hdecided, hprofiles, hlanes]
  congr 1
  · exact List.flatMap_congr fun lane _ => (balance_alike h lane).1
  · exact List.map_congr_left fun lane _ => (balance_alike h lane).2

/-- Grids that are the same after erasing have the same survey after erasing. -/
theorem outcome_alike : (outcome (.standard grid config grammar)).map (Survey.erase e.erase) =
    (outcome (.standard grid' config grammar)).map (Survey.erase e.erase) := by
  have hunits : units (Context.standard grid config grammar).grid = units (Context.standard grid' config grammar).grid := by
    have herase : ∀ grid : Grid, units (grid.erase e.erase) = units grid := by
      intro grid
      simp only [units, Grid.lanes_erase, Grid.rows_erase]
    exact (herase grid).symm.trans ((congrArg units h).trans (herase grid'))
  unfold outcome outcomeBy
  rw [hunits]
  refine map_bind_congr (f := id) rfl fun _ _ _ => ?_
  refine map_bind_congr (map_mapM_congr fun unit _ => scan_alike h unit) fun scans scans' hscans => ?_
  refine map_bind_congr (settled_alike h hscans) fun resolved resolved' hresolved => ?_
  have hdecided : (decided scans resolved).map (Decision.erase e.erase) = (decided scans' resolved').map (Decision.erase e.erase) := by
    rw [← decided_map, ← decided_map, hscans, hresolved]
  have htwice : decidedTwice? (decided scans resolved) = decidedTwice? (decided scans' resolved') := by
    rw [← decidedTwice?_map e.erase, hdecided, decidedTwice?_map]
  rw [htwice]
  cases decidedTwice? (decided scans' resolved') with
  | some p => rfl
  | none => exact congrArg Except.ok (ofPhases_alike h hscans hdecided)

end

end Survey

end TokenForest
