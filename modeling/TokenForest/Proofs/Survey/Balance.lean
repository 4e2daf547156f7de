import Mathlib.Algebra.BigOperators.Group.List.Basic
import Mathlib.Algebra.Ring.Int.Defs
import TokenForest.Proofs.Grid.Index
import TokenForest.Survey.Balance
import TokenForest.Survey.Measures

/-!
# Depth by column and by lane

The depth of open brackets is counted down each column and, apart from that, over the whole lane. Both counts are of the same cells:
the columns of a lane together come to the depth of the lane. A column or a lane is balanced exactly when its brackets are, read in
its own order.
-/

namespace TokenForest

theorem ColumnProfile.balanced_iff {c : ColumnProfile} : c.balanced = true ↔ c.finalDepth = 0 ∧ c.underflowRows = [] := by
  rw [balanced, Bool.and_eq_true, decide_eq_true_iff, List.isEmpty_iff]

theorem LaneBalance.balanced_iff {b : LaneBalance} : b.balanced = true ↔ b.finalDepth = 0 ∧ b.underflow = [] := by
  rw [balanced, Bool.and_eq_true, decide_eq_true_iff, List.isEmpty_iff]

namespace Balance

variable {grammar : Grammar} {lexemes front : List String}

/-! ## Brackets of a text -/

@[simp]
theorem openDepth_nil : openDepth grammar [] = 0 := rfl

theorem openDepth_cons (l : String) : openDepth grammar (l :: lexemes) = delta grammar l + openDepth grammar lexemes := by
  simp only [openDepth, openers, closers, List.countP_cons, delta]
  cases grammar.opens l <;> cases grammar.closes l <;> simp <;> omega

@[simp]
theorem openDepth_append (front back : List String) :
    openDepth grammar (front ++ back) = openDepth grammar front + openDepth grammar back := by
  simp only [openDepth, openers, closers, List.countP_append]
  omega

theorem openDepth_perm {other : List String} (h : lexemes.Perm other) : openDepth grammar lexemes = openDepth grammar other := by
  simp only [openDepth, openers, closers, h.countP_eq]

/-- Parts of a text come to its depth. -/
theorem openDepth_flatMap {α : Type} (parts : List α) (text : α → List String) :
    openDepth grammar (parts.flatMap text) = (parts.map (fun a => openDepth grammar (text a))).sum := by
  induction parts with
  | nil => rfl
  | cons a parts ih => rw [List.flatMap_cons, openDepth_append, ih, List.map_cons, List.sum_cons]

/-- The brackets are balanced when no prefix comes to a negative depth and all of it comes to zero. -/
theorem balanced_iff : Balanced grammar lexemes ↔
    (∀ front, front <+: lexemes → 0 ≤ openDepth grammar front) ∧ openDepth grammar lexemes = 0 := by
  unfold openDepth
  constructor
  · intro h
    refine ⟨fun front hfront => ?_, ?_⟩
    · have hle := h.prefixes front hfront
      omega
    · have htotals := h.totals
      omega
  · rintro ⟨hprefixes, htotal⟩
    refine ⟨fun front hfront => ?_, by omega⟩
    have hdepth := hprefixes front hfront
    omega

/-! ## Depths on the way -/

theorem length_depths (start : Int) (steps : List Int) : (depths start steps).length = steps.length := by
  induction steps generalizing start with
  | nil => rfl
  | cons d rest ih => rw [depths, List.length_cons, ih, List.length_cons]

/-- The depths on the way are those of the prefixes, the empty one apart. -/
theorem mem_depths {start d : Int} : d ∈ depths start (lexemes.map (delta grammar)) ↔
    ∃ front, front ≠ [] ∧ front <+: lexemes ∧ d = start + openDepth grammar front := by
  induction lexemes generalizing start with
  | nil => simp [depths]
  | cons l lexemes ih =>
    rw [List.map_cons, depths, List.mem_cons, ih]
    constructor
    · rintro (rfl | ⟨front, _, hfront, rfl⟩)
      · exact ⟨[l], by simp, by simp, by simp [openDepth_cons]⟩
      · exact ⟨l :: front, by simp, by simpa using hfront, by rw [openDepth_cons]; omega⟩
    · rintro ⟨front, hne, hfront, rfl⟩
      rcases List.prefix_cons_iff.1 hfront with rfl | ⟨behind, rfl, hbehind⟩
      · exact absurd rfl hne
      · rw [openDepth_cons]
        rcases eq_or_ne behind [] with rfl | hne
        · simp
        · exact .inr ⟨behind, hne, hbehind, by omega⟩

/-- The last depth is that of the whole text. -/
theorem getLast?_depths (start : Int) (lexemes : List String) :
    (depths start (lexemes.map (delta grammar))).getLast?.getD start = start + openDepth grammar lexemes := by
  induction lexemes generalizing start with
  | nil => simp [depths]
  | cons l lexemes ih =>
    rw [List.map_cons, depths, List.getLast?_cons, Option.getD_some, ih, openDepth_cons]
    omega

theorem foldl_max_spec (m : Int) (ds : List Int) :
    (ds.foldl max m = m ∨ ds.foldl max m ∈ ds) ∧ m ≤ ds.foldl max m ∧ ∀ d ∈ ds, d ≤ ds.foldl max m := by
  induction ds generalizing m with
  | nil => simp
  | cons d ds ih =>
    obtain ⟨hmem, hle, hall⟩ := ih (max m d)
    rw [List.foldl_cons]
    refine ⟨?_, by omega, ?_⟩
    · rcases hmem with hmax | hmem
      · rcases Int.le_total d m with hdm | hmd
        · exact .inl (by omega)
        · have hd : ds.foldl max (max m d) = d := by omega
          exact .inr (by simp [hd])
      · exact .inr (List.mem_cons_of_mem d hmem)
    · intro e he
      rcases List.mem_cons.1 he with rfl | he
      · omega
      · exact hall e he

/-- The depth is negative at no position when none of the depths is. -/
theorem underflow_eq_nil_iff {ps : List Position} {ds : List Int} (h : ps.length = ds.length) :
    underflow ps ds = [] ↔ ∀ d ∈ ds, 0 ≤ d := by
  rw [underflow, List.map_eq_nil_iff, List.filter_eq_nil_iff]
  constructor
  · intro hnone d hd
    rw [← List.map_snd_zip (Nat.le_of_eq h.symm)] at hd
    obtain ⟨e, he, rfl⟩ := List.mem_map.1 hd
    simpa using hnone e he
  · intro hall e he
    simpa using hall e.2 (List.of_mem_zip he).2

/-! ## Profiles -/

/-- What is read off the depths on the way is what the lexemes have. -/
theorem measures_depths {ps : List Position} {ds : List Int} {balanced : Bool} (hlength : ps.length = lexemes.length)
    (h : depths 0 (lexemes.map (delta grammar)) = ds) (hbalanced : balanced = true ↔ final ds = 0 ∧ underflow ps ds = []) :
    Measures grammar lexemes (greatest ds) (final ds) balanced := by
  have hmem : ∀ d, d ∈ ds ↔ ∃ front, front ≠ [] ∧ front <+: lexemes ∧ d = openDepth grammar front := by
    intro d
    rw [← h, mem_depths]
    simp
  have hfinal : final ds = openDepth grammar lexemes := by
    rw [final, ← h, getLast?_depths, Int.zero_add]
  obtain ⟨hreached, hzero, hall⟩ := foldl_max_spec 0 ds
  have hgreatest : ∀ front, front <+: lexemes → openDepth grammar front ≤ greatest ds := by
    intro front hfront
    rcases eq_or_ne front [] with rfl | hne
    · exact hzero
    · exact hall _ ((hmem _).2 ⟨front, hne, hfront, rfl⟩)
  refine ⟨hfinal, ?_, hgreatest, hfinal ▸ hgreatest lexemes (List.prefix_refl _), ?_⟩
  · rcases hreached with hnone | hsome
    · exact ⟨[], List.nil_prefix, hnone.symm⟩
    · obtain ⟨front, _, hfront, heq⟩ := (hmem _).1 hsome
      exact ⟨front, hfront, heq.symm⟩
  · have hunder : underflow ps ds = [] ↔ ∀ front, front <+: lexemes → 0 ≤ openDepth grammar front := by
      rw [underflow_eq_nil_iff (by rw [hlength, ← h, length_depths, List.length_map])]
      constructor
      · intro hpos front hfront
        rcases eq_or_ne front [] with rfl | hne
        · exact Int.le_refl 0
        · exact hpos _ ((hmem _).2 ⟨front, hne, hfront, rfl⟩)
      · intro hpos d hd
        obtain ⟨front, _, hfront, rfl⟩ := (hmem d).1 hd
        exact hpos front hfront
    rw [hbalanced, balanced_iff, ← hunder, ← hfinal, and_comm]

/-! ## Columns and lanes -/

variable {grid : Grid} {lane : Lane} {picked : Position → Prop} {before : Position → Position → Prop}
  {cells : List (Position × Symbol)}

/-- The cells of a lane. -/
def laneCells (grid : Grid) (lane : Lane) : List (Position × Symbol) := grid.cells.filter (fun cell => decide (cell.1.lane = lane))

/-- The cells of a column. -/
def columnCells (grid : Grid) (lane : Lane) (column : Nat) : List (Position × Symbol) :=
  (laneCells grid lane).filter (fun cell => decide (cell.1.column = column))

theorem map_laneCells (grid : Grid) (lane : Lane) : (laneCells grid lane).map (·.1) = grid.lanePositions lane := by
  simp only [laneCells, Grid.lanePositions, Grid.positions, List.filter_map, Function.comp_def]

theorem map_columnCells (grid : Grid) (lane : Lane) (column : Nat) :
    (columnCells grid lane column).map (·.1) = grid.columnPositions lane column := by
  rw [Grid.columnPositions, ← map_laneCells, List.filter_map]
  rfl

/-- The steps at the positions of cells are those of their lexemes. -/
theorem deltas_eq (hnodup : grid.positions.Nodup) (h : ∀ cell ∈ cells, cell ∈ grid.cells) (grammar : Grammar) :
    deltas grid grammar (cells.map (·.1)) = (lexemesOf cells).map (delta grammar) := by
  rw [deltas, lexemesOf, List.map_map, List.map_map]
  apply List.map_congr_left
  intro cell hcell
  have hsymbol : grid.symbolAt? cell.1 = some cell.2 := Grid.symbolAt?_of_mem_cells hnodup (h cell hcell)
  simp [hsymbol]

theorem inOrder_laneCells (h : grid.positions.Pairwise Position.Before) (lane : Lane) :
    InOrder grid (fun p => p.lane = lane) Position.Before (laneCells grid lane) := by
  refine ⟨by simp [laneCells], ?_⟩
  have hlane : (grid.lanePositions lane).Pairwise Position.Before := h.filter _
  rwa [← map_laneCells, List.pairwise_map] at hlane

theorem inOrder_columnCells (h : grid.positions.Pairwise Position.Before) (lane : Lane) (column : Nat) :
    InOrder grid (fun p => p.lane = lane ∧ p.column = column) (fun p q => p.row < q.row) (columnCells grid lane column) := by
  refine ⟨by simp [columnCells, laneCells, and_assoc, and_comm], ?_⟩
  have hrows : (grid.columnPositions lane column).Pairwise (fun p q => p.row < q.row) := Grid.pairwise_columnPositions h
  rwa [← map_columnCells, List.pairwise_map] at hrows

/-- The columns of a lane one after the other hold the cells of the lane. -/
theorem flatMap_columnCells_perm (grid : Grid) (lane : Lane) :
    ((grid.columns lane).flatMap (columnCells grid lane)).Perm (laneCells grid lane) := by
  have hgroups := Grouping.flatMap_groups_perm (fun cell : Position × Symbol => cell.1.column) (laneCells grid lane)
  have hcolumns : (laneCells grid lane).map (fun cell => cell.1.column) = (grid.lanePositions lane).map (·.column) := by
    rw [← map_laneCells, List.map_map]
    rfl
  rw [hcolumns] at hgroups
  exact ((List.mergeSort_perm _ _).flatMap_right _).trans hgroups

theorem measures_columnProfile (hnodup : grid.positions.Nodup) (grammar : Grammar) (lane : Lane) (column : Nat) :
    Measures grammar (lexemesOf (columnCells grid lane column)) (columnProfile grid grammar lane column).maxDepth
      (columnProfile grid grammar lane column).finalDepth (columnProfile grid grammar lane column).balanced := by
  have hdeltas : deltas grid grammar (grid.columnPositions lane column) =
      (lexemesOf (columnCells grid lane column)).map (delta grammar) := by
    rw [← map_columnCells]
    exact deltas_eq hnodup (fun cell hcell => (List.mem_filter.1 (List.mem_filter.1 hcell).1).1) grammar
  have hlength : (grid.columnPositions lane column).length = (lexemesOf (columnCells grid lane column)).length := by
    rw [← map_columnCells, lexemesOf, List.length_map, List.length_map]
  exact measures_depths hlength (congrArg (depths 0) hdeltas.symm)
    (by rw [ColumnProfile.balanced_iff, columnProfile, columnOf, List.map_eq_nil_iff])

theorem measures_ofLane (hnodup : grid.positions.Nodup) (hordered : grid.positions.Pairwise (fun p q => p.le q = true))
    (grammar : Grammar) (lane : Lane) : Measures grammar (lexemesOf (laneCells grid lane)) (ofLane grid grammar lane).maxDepth
      (ofLane grid grammar lane).finalDepth (ofLane grid grammar lane).balanced := by
  have horder : laneOrder grid lane = (laneCells grid lane).map (·.1) := by
    rw [map_laneCells]
    exact Grid.flatMap_rowPositions_eq hordered lane
  have hdeltas : deltas grid grammar (laneOrder grid lane) = (lexemesOf (laneCells grid lane)).map (delta grammar) := by
    rw [horder]
    exact deltas_eq hnodup (fun cell hcell => (List.mem_filter.1 hcell).1) grammar
  have hlength : (laneOrder grid lane).length = (lexemesOf (laneCells grid lane)).length := by
    rw [horder, lexemesOf, List.length_map, List.length_map]
  exact measures_depths hlength (congrArg (depths 0) hdeltas.symm) (by rw [LaneBalance.balanced_iff, ofLane, laneOf])

variable {records : List TokenRecord} {staged : Bool} {own : Grammar}

/-- In the grid of a stream the depth by column and the depth by lane agree, whatever grammar tells the brackets. -/
theorem scans_agree (h : Grid.organize records staged own = .ok grid) (grammar : Grammar) (lane : Lane) : Agree grid grammar lane := by
  have hnodup := Grid.nodup_positions h
  have hbefore : grid.positions.Pairwise Position.Before := Grid.pairwise_before h
  have hlane : Measures grammar (lexemesOf (laneCells grid lane)) _ _ _ :=
    measures_ofLane hnodup (Grid.pairwise_positions h) grammar lane
  have hcolumns : (columnProfiles grid grammar lane).map (·.column) = grid.columns lane := by
    simp [columnProfiles, columnProfile, columnOf, Function.comp_def]
  refine ⟨⟨?_, fun column => ?_⟩, ?_, ⟨rfl, _, inOrder_laneCells hbefore lane, hlane⟩, ?_⟩
  · rw [hcolumns]
    exact (List.mergeSort_perm _ _).nodup_iff.2 (Grouping.nodup_eraseDups _)
  · rw [hcolumns, Grid.columns, List.mem_mergeSort]
    simp only [Grid.occupied_iff]
    exact Grid.mem_columnsMet
  · intro c hc
    obtain ⟨column, _, rfl⟩ := List.mem_map.1 hc
    exact ⟨rfl, _, inOrder_columnCells hbefore lane column, measures_columnProfile hnodup grammar lane column⟩
  · have hcells : (columnProfiles grid grammar lane).map (·.finalDepth) =
        (grid.columns lane).map (fun column => openDepth grammar (lexemesOf (columnCells grid lane column))) := by
      rw [columnProfiles, List.map_map]
      exact List.map_congr_left fun column _ => (measures_columnProfile hnodup grammar lane column).final
    have hperm : ((grid.columns lane).flatMap (fun column => lexemesOf (columnCells grid lane column))).Perm
        (lexemesOf (laneCells grid lane)) := by
      have hlexemes := (flatMap_columnCells_perm grid lane).map (·.2.lexeme)
      rwa [List.map_flatMap] at hlexemes
    rw [hcells, ← openDepth_flatMap, openDepth_perm hperm, hlane.final]

/-- Three rows that open two brackets side by side and close both of them in the second column. -/
def stackedRecords : List TokenRecord := [
  ⟨.delimiter, "delimiter", "(", some 0, some 0, none, none, none, "", 1⟩,
  ⟨.delimiter, "delimiter", "(", none, none, none, none, none, "", 1⟩,
  ⟨.closure, "closure", ")", some 1, some 1, none, none, none, "", 1⟩,
  ⟨.closure, "closure", ")", some 2, some 1, none, none, none, "", 1⟩]

/-- The grid of the three rows. -/
def stackedGrid : Grid where
  staged := false
  cells := [
    (⟨0, 0, none⟩, ⟨Grid.symbolName 1 ⟨0, 0, none⟩, .delimiter, "(", "delimiter", .delimiter, 1, none, none, none⟩),
    (⟨0, 1, none⟩, ⟨Grid.symbolName 2 ⟨0, 1, none⟩, .delimiter, "(", "delimiter", .delimiter, 1, none, none, none⟩),
    (⟨1, 1, none⟩, ⟨Grid.symbolName 3 ⟨1, 1, none⟩, .closure, ")", "closure", .closure, 1, none, none, none⟩),
    (⟨2, 1, none⟩, ⟨Grid.symbolName 4 ⟨2, 1, none⟩, .closure, ")", "closure", .closure, 1, none, none, none⟩)]

theorem organize_stackedRecords : Grid.organize stackedRecords stackedGrid.staged .default = .ok stackedGrid :=
  Grid.organize_of_ordered (by decide +kernel) (by decide +kernel) (by decide +kernel)

/-- The lane is balanced and neither of its columns is: the first one is left open, and the second one closes too much. -/
theorem scans_agree_stacked : Grid.organize stackedRecords false .default = .ok stackedGrid ∧ Agree stackedGrid .default none ∧
    ofLane stackedGrid .default none = ⟨none, 2, 0, []⟩ ∧
    columnProfile stackedGrid .default none 0 = ⟨none, 0, 1, 1, []⟩ ∧
    columnProfile stackedGrid .default none 1 = ⟨none, 1, 1, -1, [2]⟩ := by
  have hagree : Agree stackedGrid .default none := scans_agree organize_stackedRecords .default none
  refine ⟨organize_stackedRecords, hagree, ?_⟩
  decide +kernel

end Balance

end TokenForest
