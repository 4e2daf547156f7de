import TokenForest.Position
import TokenForest.Symbol

/-!
# The grid

The symbols of a batch by position. Rows, columns and lanes are views of the one list of cells, which is kept in source
order, and a neighbour is always an occupied cell.
-/

namespace TokenForest

/-- The occupied cells in source order. Lanes are told apart when the grid is staged. -/
structure Grid where
  staged : Bool
  cells : List (Position × Symbol)
  deriving DecidableEq, Repr

namespace Grid

/-- The number of occupied cells. -/
def size (g : Grid) : Nat := g.cells.length

/-- The symbol at a position. -/
def symbolAt? (g : Grid) (p : Position) : Option Symbol := g.cells.lookup p

/-- The position is occupied. -/
def occupied (g : Grid) (p : Position) : Bool := (g.symbolAt? p).isSome

/-- The occupied positions in source order. -/
def positions (g : Grid) : List Position := g.cells.map (·.1)

/-! ## Rows, columns and lanes -/

/-- The lanes in order. -/
def lanes (g : Grid) : List Lane := (g.positions.map (·.lane)).eraseDups

/-- The positions of a lane in source order. -/
def lanePositions (g : Grid) (lane : Lane) : List Position := g.positions.filter (fun p => decide (p.lane = lane))

/-- The rows of a lane, ascending. -/
def rows (g : Grid) (lane : Lane) : List Nat := ((g.lanePositions lane).map (·.row)).eraseDups

/-- The positions of a row from left to right. -/
def rowPositions (g : Grid) (lane : Lane) (row : Nat) : List Position :=
  (g.lanePositions lane).filter (fun p => decide (p.row = row))

/-- The columns of a lane, ascending. -/
def columns (g : Grid) (lane : Lane) : List Nat :=
  (((g.lanePositions lane).map (·.column)).eraseDups).mergeSort (fun a b => decide (a ≤ b))

/-- The positions of a column from top to bottom. -/
def columnPositions (g : Grid) (lane : Lane) (column : Nat) : List Position :=
  (g.lanePositions lane).filter (fun p => decide (p.column = column))

/-! ## Neighbours -/

/-- The elements before and after the first occurrence of `p`. -/
def around (p : Position) (row : List Position) : Option Position × Option Position :=
  match row.idxOf? p with
  | none => (none, none)
  | some i => (if i = 0 then none else row[i - 1]?, row[i + 1]?)

/-- The nearest occupied cells to the left and to the right in the row of a position. -/
def beside (g : Grid) (p : Position) : Option Position × Option Position :=
  around p (g.rowPositions p.lane p.row)

/-- The occupied cells directly above and below a position. -/
def aboveBelow (g : Grid) (p : Position) : List Position :=
  let above := if p.row = 0 then [] else [{ p with row := p.row - 1 }]
  (above ++ [{ p with row := p.row + 1 }]).filter g.occupied

/-- The occupied cells at the same row and column of the other lanes; none when the grid is not staged. -/
def counterparts (g : Grid) (p : Position) : List Position :=
  if g.staged then
    ((g.lanes.filter (fun lane => decide (lane ≠ p.lane))).map (fun lane => { p with lane })).filter g.occupied
  else []

/-! ## Neighbourhoods -/

/-- The cells that may be read to settle one position. -/
structure Neighborhood where
  position : Position
  row : List Position
  vertical : List Position
  counterparts : List Position
  deriving DecidableEq, Repr

/-- The neighbourhood of a position: its row, the cells above and below, and its alternates in other lanes. -/
def neighborhood (g : Grid) (p : Position) : Neighborhood where
  position := p
  row := g.rowPositions p.lane p.row
  vertical := g.aboveBelow p
  counterparts := g.counterparts p

/-- The position belongs to the neighbourhood. -/
def Neighborhood.covers (n : Neighborhood) (p : Position) : Bool :=
  decide (p = n.position) || n.row.contains p || n.vertical.contains p || n.counterparts.contains p

end Grid

end TokenForest
