import TokenForest.Proofs.Grid.Views
import TokenForest.Proofs.Intents
import TokenForest.Proofs.Outcomes
import TokenForest.Survey

/-!
# Surveys read what is there

The positions of rows, columns, lanes and neighbourhoods are occupied, and an occupied position is in its row. So whatever a survey or a
resolution reads of its grid is there: the cells of rows and neighbourhoods, the index of a symbol in its row, and the depths of a column;
and each of the steps is the one that reads without a check, on any grid.
-/

namespace TokenForest

namespace Grid

variable {grid : Grid} {p : Position} {ps : List Position} {lane : Lane} {s : Symbol}

/-! ## Reading -/

theorem cell_eq_ok_iff : grid.cell p = .ok s ↔ grid.symbolAt? p = some s := by
  unfold cell
  cases grid.symbolAt? p <;> simp

theorem cell_congr {grid' : Grid} (h : grid.symbolAt? p = grid'.symbolAt? p) : grid.cell p = grid'.cell p := by
  unfold cell
  rw [h]

/-- Occupied cells can be read. -/
theorem symbolsAt_eq (h : ∀ p ∈ ps, p ∈ grid.positions) : grid.symbolsAt ps = .ok (ps.filterMap grid.symbolAt?) := by
  unfold symbolsAt
  induction ps with
  | nil => rfl
  | cons p ps ih =>
    obtain ⟨s, hs⟩ := exists_symbolAt? (h p List.mem_cons_self)
    rw [List.mapM_cons, cell_eq_ok_iff.2 hs, ih fun q hq => h q (List.mem_cons_of_mem p hq), List.filterMap_cons, hs]
    rfl

/-- A position of a row has a place in it. -/
theorem placeIn_eq (h : p ∈ ps) : placeIn ps p = .ok (ps.idxOf p) := by
  obtain ⟨i, hi⟩ := Option.isSome_iff_exists.1 (List.isSome_idxOf?.2 h)
  unfold placeIn
  rw [List.idxOf_eq_getD_idxOf?, hi]
  rfl

theorem length_filterMap_symbolAt? (h : ∀ p ∈ ps, p ∈ grid.positions) : (ps.filterMap grid.symbolAt?).length = ps.length := by
  rw [List.length_filterMap_eq_countP, List.countP_eq_length]
  intro p hp
  obtain ⟨s, hs⟩ := exists_symbolAt? (h p hp)
  rw [hs]
  rfl

/-! ## Views -/

theorem mem_positions_of_mem_rowPositions {row : Nat} (h : p ∈ grid.rowPositions lane row) : p ∈ grid.positions :=
  (mem_rowPositions.1 h).1

theorem mem_positions_of_mem_columnPositions {column : Nat} (h : p ∈ grid.columnPositions lane column) : p ∈ grid.positions :=
  List.mem_of_mem_filter (List.mem_of_mem_filter h)

theorem mem_positions_of_mem_aboveBelow {q : Position} (h : q ∈ grid.aboveBelow p) : q ∈ grid.positions :=
  occupied_iff.1 (List.mem_filter.1 h).2

theorem mem_positions_of_mem_counterparts {q : Position} (h : q ∈ grid.counterparts p) : q ∈ grid.positions := by
  unfold counterparts at h
  split at h
  · exact occupied_iff.1 (List.mem_filter.1 h).2
  · cases h

/-- The columns of a lane are occupied. -/
theorem columnPositions_ne_nil {column : Nat} (h : column ∈ grid.columns lane) : grid.columnPositions lane column ≠ [] := by
  unfold columns at h
  rw [List.mem_mergeSort, List.mem_eraseDups] at h
  obtain ⟨p, hp, hcolumn⟩ := List.mem_map.1 h
  exact List.ne_nil_of_mem (List.mem_filter.2 ⟨hp, decide_eq_true hcolumn⟩)

end Grid

variable {c : Context} {p : Position} {s : Symbol}

/-- A computation whose first step has a result goes on with it. -/
theorem Evaluating.lift_ok_bind {α β : Type} (a : α) (f : α → Evaluating β) : (Evaluating.lift (.ok a) >>= f) = f a := rfl

/-! ## Neighbourhoods -/

namespace Context

theorem mem_row_of_symbolAt? (hs : c.grid.symbolAt? p = some s) : p ∈ (c.grid.neighborhood p).row := by
  have hp : p ∈ c.grid.positions := List.mem_map_of_mem (f := Prod.fst) (Grid.mem_cells_of_symbolAt? hs)
  exact Grid.mem_rowPositions.2 ⟨hp, rfl, rfl⟩

theorem length_rowAt (c : Context) (p : Position) : (c.rowAt p).length = (c.grid.neighborhood p).row.length :=
  Grid.length_filterMap_symbolAt? fun _ => Grid.mem_positions_of_mem_rowPositions

/-- An occupied position is in its row. -/
theorem indexAt_lt (hs : c.grid.symbolAt? p = some s) : c.indexAt p < (c.rowAt p).length := by
  rw [length_rowAt]
  exact List.idxOf_lt_length_of_mem (mem_row_of_symbolAt? hs)

end Context

namespace Resolution

theorem attestedTags?_eq (grid : Grid) (p : Position) (lexeme : String) :
    attestedTags? grid (grid.neighborhood p) lexeme = .ok (attestedTags grid (grid.neighborhood p) lexeme) := by
  have hread : grid.symbolsAt (grid.neighborhood p).counterparts = .ok _ :=
    Grid.symbolsAt_eq fun _ => Grid.mem_positions_of_mem_counterparts
  unfold attestedTags? attestedTags
  rw [hread, ok_bind, List.filterMap_filterMap]
  rfl

theorem supportOf?_eq (grid : Grid) (p : Position) (hint : Hint) :
    supportOf? grid (grid.neighborhood p) hint = .ok (supportOf grid (grid.neighborhood p) hint) := by
  have hread : grid.symbolsAt (grid.neighborhood p).vertical = .ok _ :=
    Grid.symbolsAt_eq fun _ => Grid.mem_positions_of_mem_aboveBelow
  unfold supportOf? supportOf
  rw [hread, ok_bind, List.countP_filterMap]
  refine congrArg Except.ok (List.countP_congr fun q _ => ?_)
  cases grid.symbolAt? q <;> simp

/-- A reading that makes another symbol of a confidence: how it was judged, and the alternative when it passed. -/
def weigh (c : Context) (n : Grid.Neighborhood) (row : List Symbol) (index : Nat) (original : Intent) (r : Reading)
    (alternative : Symbol) (b : Breakdown) : Candidate × Option Passing :=
  let intent := Intents.classify c.grammar (row.set index alternative) index
  let rejection := rejection? c.config c.grammar original intent b
  let passing := match rejection with
    | some _ => none
    | none => some ⟨alternative, b, supportOf c.grid n r.hint⟩
  (⟨r.typeTag, b.psi, c.config.threshold intent, intent, rejection⟩, passing)

/-- Trying a reading at an index of a row weighs it. -/
theorem tryReading_eq (p : Position) {row : List Symbol} {index : Nat} (h : index < row.length) (original : Intent) (s : Symbol)
    (r : Reading) : tryReading c (c.grid.neighborhood p) row index original s r = (do
      let alternative ← Evaluating.lift ((reread s r).check.mapError .symbol)
      let b ← c.evaluate alternative (c.grid.neighborhood p).position
      return weigh c (c.grid.neighborhood p) row index original r alternative b) := by
  unfold tryReading
  refine bind_congr fun alternative => bind_congr fun b => ?_
  rw [Intents.classify?_eq (by rwa [List.length_set]), Evaluating.lift_ok_bind, supportOf?_eq]
  simp only [weigh]
  generalize rejection? c.config c.grammar original (Intents.classify c.grammar (row.set index alternative) index) b = rejection
  cases rejection with
  | some code => rfl
  | none => exact Evaluating.lift_ok_bind _ _

/-- Resolving a symbol tries its readings in its row. -/
theorem resolve_eq (c : Context) (p : Position) : resolve c p = (do
    let s ← Evaluating.lift (c.symbolAt p)
    let original ← c.evaluate s p
    let tried ← (alternatives c.grammar c.grid (c.grid.neighborhood p) s).mapM
      (tryReading c (c.grid.neighborhood p) (c.rowAt p) (c.indexAt p) (c.intentAt p) s)
    return ofTried original (c.intentAt p) tried) := by
  unfold resolve
  cases hs : c.symbolAt p with
  | error fault => rfl
  | ok s =>
    have hsymbol := Grid.cell_eq_ok_iff.1 hs
    have hrow : c.grid.symbolsAt (c.grid.neighborhood p).row = .ok (c.rowAt p) :=
      Grid.symbolsAt_eq fun _ => Grid.mem_positions_of_mem_rowPositions
    have hindex : Grid.placeIn (c.grid.neighborhood p).row p = .ok (c.indexAt p) :=
      Grid.placeIn_eq (Context.mem_row_of_symbolAt? hsymbol)
    have hintent : Intents.classify? c.grammar (c.rowAt p) (c.indexAt p) = .ok (c.intentAt p) :=
      Intents.classify?_eq (Context.indexAt_lt hsymbol)
    simp only [Evaluating.lift_ok_bind, hrow, hindex, hintent, attestedTags?_eq]
    rfl

end Resolution

/-! ## Rows -/

namespace Survey

theorem map_snd_rowCells (grid : Grid) (lane : Lane) (row : Nat) :
    (rowCells grid lane row).map (·.2) = (grid.rowPositions lane row).filterMap grid.symbolAt? := by
  unfold rowCells
  rw [List.map_filterMap]
  congr 1
  funext p
  cases grid.symbolAt? p <;> rfl

/-- The cells of a row are its positions with their symbols. -/
theorem zip_symbols (grid : Grid) (lane : Lane) (row : Nat) :
    (grid.rowPositions lane row).zip ((grid.rowPositions lane row).filterMap grid.symbolAt?) = rowCells grid lane row := by
  have hcells : ∀ ps : List Position, (∀ p ∈ ps, p ∈ grid.positions) →
      ps.zip (ps.filterMap grid.symbolAt?) = ps.filterMap (fun p => (grid.symbolAt? p).map (p, ·)) := by
    intro ps
    induction ps with
    | nil => intro _; rfl
    | cons p ps ih =>
      intro h
      obtain ⟨s, hs⟩ := Grid.exists_symbolAt? (h p (by simp))
      rw [List.filterMap_cons, List.filterMap_cons, hs, Option.map_some, List.zip_cons_cons, ih fun q hq => h q (by simp [hq])]
  exact hcells _ fun p => Grid.mem_positions_of_mem_rowPositions

/-- Scanning a row reads its cells. -/
theorem surveyRowBy_eq (average : List Binary64 → Binary64) (c : Context) (expired : Bool) (unit : Lane × Nat) :
    surveyRowBy average c expired unit = (do
      let cells := rowCells c.grid unit.1 unit.2
      if expired then return unscanned unit.1 unit.2 cells
      let judged ← (cells.zipIdx.map (fun e => (e.2, e.1))).mapM (judge c (cells.map (·.2)))
      return scannedBy average c unit.1 unit.2 judged) := by
  have hread : c.grid.symbolsAt (c.grid.rowPositions unit.1 unit.2) = .ok _ :=
    Grid.symbolsAt_eq fun _ => Grid.mem_positions_of_mem_rowPositions
  have hsymbols : (rowCells c.grid unit.1 unit.2).map (·.2) = (c.grid.rowPositions unit.1 unit.2).filterMap c.grid.symbolAt? :=
    map_snd_rowCells c.grid unit.1 unit.2
  unfold surveyRowBy
  simp only [hread, Evaluating.lift_ok_bind, zip_symbols, hsymbols]

theorem surveyRow_eq (c : Context) (expired : Bool) (unit : Lane × Nat) : surveyRow c expired unit = (do
    let cells := rowCells c.grid unit.1 unit.2
    if expired then return unscanned unit.1 unit.2 cells
    let judged ← (cells.zipIdx.map (fun e => (e.2, e.1))).mapM (judge c (cells.map (·.2)))
    return scannedBy Binary64.mean c unit.1 unit.2 judged) :=
  surveyRowBy_eq Binary64.mean c expired unit

/-- Judging a symbol at an index of its row evaluates its confidence. -/
theorem judge_eq_of_lt {row : List Symbol} {index : Nat} (h : index < row.length) (p : Position) (s : Symbol) :
    judge c row (index, p, s) = (do
      let b ← c.evaluate s p
      let threshold := c.config.threshold (Intents.classify c.grammar row index)
      if threshold ≤ b.psi ∧ b.components.reaches c.config.componentMinimums then
        return (b.psi, .ok (Decision.accept p s b threshold))
      else
        return (b.psi, .error p)) := by
  unfold judge
  simp only [Intents.classify?_eq h, Evaluating.lift_ok_bind]

end Survey

/-! ## Columns and lanes -/

namespace Balance

variable {grid : Grid} {ps : List Position}

theorem deltas?_eq (grammar : Grammar) (h : ∀ p ∈ ps, p ∈ grid.positions) :
    deltas? grid grammar ps = .ok (deltas grid grammar ps) := by
  unfold deltas? deltas
  rw [Grid.symbolsAt_eq h, ok_bind]
  refine congrArg Except.ok ?_
  induction ps with
  | nil => rfl
  | cons p ps ih =>
    obtain ⟨s, hs⟩ := Grid.exists_symbolAt? (h p List.mem_cons_self)
    rw [List.filterMap_cons, hs, List.map_cons, List.map_cons, hs, ih fun q hq => h q (List.mem_cons_of_mem p hq)]
    rfl

/-- A column that is scanned has its profile. -/
theorem columnProfile?_eq (grammar : Grammar) {lane : Lane} {column : Nat} (h : column ∈ grid.columns lane) :
    columnProfile? grid grammar lane column = .ok (columnProfile grid grammar lane column) := by
  have hne := Grid.columnPositions_ne_nil h
  unfold columnProfile? columnProfile
  simp only
  rw [deltas?_eq grammar fun _ => Grid.mem_positions_of_mem_columnPositions, ok_bind]
  cases hps : grid.columnPositions lane column with
  | nil => exact absurd hps hne
  | cons p ps => rfl

/-- Scanning the columns of a lane and the lane does not fail, on any grid. -/
theorem scanLane_eq (grid : Grid) (grammar : Grammar) (lane : Lane) :
    scanLane grid grammar lane = .ok (columnProfiles grid grammar lane, ofLane grid grammar lane) := by
  have hcolumns : (grid.columns lane).mapM (columnProfile? grid grammar lane) = .ok (columnProfiles grid grammar lane) :=
    mapM_of_forall₂ (List.forall₂_map_right_iff.2 (List.forall₂_same.2 fun column h => columnProfile?_eq grammar h))
  have horder : ∀ p ∈ laneOrder grid lane, p ∈ grid.positions := by
    intro p hp
    obtain ⟨row, _, hp⟩ := List.mem_flatMap.1 hp
    exact Grid.mem_positions_of_mem_rowPositions hp
  unfold scanLane ofLane
  simp only
  rw [hcolumns, ok_bind, deltas?_eq grammar horder]
  rfl

end Balance

/-! ## Whole surveys -/

namespace Survey

/-- A survey scans and resolves; the columns and lanes are always scanned to their ends. -/
theorem runBy_eq (average : List Binary64 → Binary64) (c : Context) (deadline : Deadline) : runBy average c deadline = (do
    Evaluating.lift (c.config.validate.mapError .config)
    let rows := units c.grid
    let scans ← Evaluating.runAll ((numbered 0 rows).map (fun e => surveyRowBy average c (deadline e.1) e.2))
    let resolved ← Evaluating.runAll
      ((numbered rows.length (pending scans)).map (fun e => settleRow c (deadline e.1) e.2.flagged))
    let decisions := scans.flatMap (·.decisions) ++ resolved.flatten
    match decidedTwice? decisions with
    | some p => Evaluating.lift (.error (.decidedTwice p))
    | none =>
      return {
        decisions := inOrder decisions
        rowProfiles := scans.map (·.profile)
        columnProfiles := c.grid.lanes.flatMap (Balance.columnProfiles c.grid c.grammar)
        laneBalances := c.grid.lanes.map (Balance.ofLane c.grid c.grammar) }) := by
  have hbalances : c.grid.lanes.mapM (Balance.scanLane c.grid c.grammar) = .ok (c.grid.lanes.map fun lane =>
      (Balance.columnProfiles c.grid c.grammar lane, Balance.ofLane c.grid c.grammar lane)) :=
    mapM_of_forall₂ (List.forall₂_map_right_iff.2 (List.forall₂_same.2 fun lane _ => Balance.scanLane_eq ..))
  unfold runBy
  simp only [hbalances, Evaluating.lift_ok_bind, List.flatMap_map, List.map_map]
  rfl

theorem run_eq (c : Context) (deadline : Deadline) : run c deadline = (do
    Evaluating.lift (c.config.validate.mapError .config)
    let rows := units c.grid
    let scans ← Evaluating.runAll ((numbered 0 rows).map (fun e => surveyRow c (deadline e.1) e.2))
    let resolved ← Evaluating.runAll
      ((numbered rows.length (pending scans)).map (fun e => settleRow c (deadline e.1) e.2.flagged))
    let decisions := scans.flatMap (·.decisions) ++ resolved.flatten
    match decidedTwice? decisions with
    | some p => Evaluating.lift (.error (.decidedTwice p))
    | none =>
      return {
        decisions := inOrder decisions
        rowProfiles := scans.map (·.profile)
        columnProfiles := c.grid.lanes.flatMap (Balance.columnProfiles c.grid c.grammar)
        laneBalances := c.grid.lanes.map (Balance.ofLane c.grid c.grammar) }) :=
  runBy_eq Binary64.mean c deadline

end Survey

end TokenForest
