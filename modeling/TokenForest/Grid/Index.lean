import TokenForest.Grid

/-!
# Indexes

The positions of a grid by lane and row, and by lane and column. An index is filled with one position after the other in source
order; a lane, and a line of a lane, is entered when its first position comes. The columns are then sorted by row.
-/

namespace TokenForest

namespace Grid

/-- The rows, or the columns, of a lane: the positions under the number of each. -/
abbrev Lines := List (Nat × List Position)

/-- The rows, or the columns, of every lane. -/
abbrev Index := List (Lane × Lines)

namespace Index

/-- The table with the entry of a key changed. A missing entry is made at the end, of a fresh value. -/
def update {κ β : Type} [DecidableEq κ] (key : κ) (fresh : β) (change : β → β) : List (κ × β) → List (κ × β)
  | [] => [(key, change fresh)]
  | (k, value) :: rest => if k = key then (k, change value) :: rest else (k, value) :: update key fresh change rest

/-- The index with one more position, at the end of its line. -/
def add (lineOf : Position → Nat) (index : Index) (p : Position) : Index :=
  update p.lane [] (update (lineOf p) [] (· ++ [p])) index

/-- The index of some positions, added in their order. -/
def ofPositions (lineOf : Position → Nat) (ps : List Position) : Index := ps.foldl (add lineOf) []

/-- The index with the positions of every line sorted by row. -/
def sortLines (index : Index) : Index :=
  index.map (fun e => (e.1, e.2.map (fun line => (line.1, line.2.mergeSort (fun p q => decide (p.row ≤ q.row))))))

/-- The lanes in order. -/
def lanes (index : Index) : List Lane :=
  (index.map (·.1)).mergeSort (fun a b => decide (Position.laneKey a ≤ Position.laneKey b))

/-- The lines of a lane, ascending; none where the lane is not entered. -/
def lines (index : Index) (lane : Lane) : List Nat :=
  (((index.lookup lane).getD []).map (·.1)).mergeSort (fun a b => decide (a ≤ b))

/-- The positions of a line; none where the line is not entered. -/
def line (index : Index) (lane : Lane) (number : Nat) : List Position :=
  (((index.lookup lane).getD []).lookup number).getD []

end Index

/-- The index of the rows of a grid. -/
def rowIndex (g : Grid) : Index := .ofPositions (·.row) g.positions

/-- The index of the columns of a grid. -/
def columnIndex (g : Grid) : Index := .sortLines (.ofPositions (·.column) g.positions)

/-! ## What an index holds -/

namespace Index

/-- Everything in an index: each position with the lane and the line under which it is entered. -/
def entries (index : Index) : List (Lane × Nat × Position) :=
  index.flatMap (fun e => e.2.flatMap (fun line => line.2.map (fun p => (e.1, line.1, p))))

end Index

/-- An index holds every occupied position once, under its lane and its line, and each line is in order. -/
structure Index.Holds (index : Index) (grid : Grid) (lineOf across : Position → Nat) : Prop where
  keys : (index.map (·.1)).Nodup ∧ ∀ e ∈ index, (e.2.map (·.1)).Nodup
  once : index.entries.Nodup
  mem_iff : ∀ lane n p, (lane, n, p) ∈ index.entries ↔ grid.occupied p = true ∧ p.lane = lane ∧ lineOf p = n
  ascending : ∀ e ∈ index, ∀ line ∈ e.2, line.2.Pairwise (fun p q => across p < across q)

/-! ## Nearest cells -/

/-- The cell is occupied, and stands on the left of a position in its row. -/
structure OnLeft (grid : Grid) (p q : Position) : Prop where
  occupied : grid.occupied q = true
  lane : q.lane = p.lane
  row : q.row = p.row
  column : q.column < p.column

/-- The cell is occupied, and stands on the right of a position in its row. -/
structure OnRight (grid : Grid) (p q : Position) : Prop where
  occupied : grid.occupied q = true
  lane : q.lane = p.lane
  row : q.row = p.row
  column : p.column < q.column

/-- No other cell on the left of a position is as near. -/
def NearestLeft (grid : Grid) (p q : Position) : Prop := grid.OnLeft p q ∧ ∀ r, grid.OnLeft p r → r.column ≤ q.column

/-- No other cell on the right of a position is as near. -/
def NearestRight (grid : Grid) (p q : Position) : Prop := grid.OnRight p q ∧ ∀ r, grid.OnRight p r → q.column ≤ r.column

/-- The indexes of a grid hold its positions, its views read the indexes, and neighbours are mutual. -/
structure Indexed (grid : Grid) : Prop where
  /-- The cells come in source order, and the positions of the grid are those of its cells. -/
  positions : grid.positions.Pairwise Position.Before ∧ ∀ p, p ∈ grid.positions ↔ grid.occupied p = true
  rows : grid.rowIndex.Holds grid (·.row) (·.column)
  columns : grid.columnIndex.Holds grid (·.column) (·.row)
  /-- Lane by lane and row by row, the index of the rows lists the positions of the grid. -/
  walk : grid.rowIndex.lanes.flatMap (fun lane => (grid.rowIndex.lines lane).flatMap (grid.rowIndex.line lane)) = grid.positions
  rowViews : grid.lanes = grid.rowIndex.lanes ∧ (∀ lane, grid.rows lane = grid.rowIndex.lines lane) ∧
    ∀ lane row, grid.rowPositions lane row = grid.rowIndex.line lane row
  columnViews : (∀ lane, grid.columns lane = grid.columnIndex.lines lane) ∧
    ∀ lane column, grid.columnPositions lane column = grid.columnIndex.line lane column
  left : ∀ p, grid.occupied p = true → (∀ q, (grid.beside p).1 = some q ↔ grid.NearestLeft p q) ∧
    ((grid.beside p).1 = none ↔ ∀ q, ¬grid.OnLeft p q)
  right : ∀ p, grid.occupied p = true → (∀ q, (grid.beside p).2 = some q ↔ grid.NearestRight p q) ∧
    ((grid.beside p).2 = none ↔ ∀ q, ¬grid.OnRight p q)
  mutualBeside : ∀ p q, (grid.beside p).2 = some q ↔ (grid.beside q).1 = some p
  mutualVertical : ∀ p q, grid.occupied p = true → grid.occupied q = true → (q ∈ grid.aboveBelow p ↔ p ∈ grid.aboveBelow q)
  mutualLanes : ∀ p q, grid.occupied p = true → grid.occupied q = true → (q ∈ grid.counterparts p ↔ p ∈ grid.counterparts q)

end Grid

end TokenForest
