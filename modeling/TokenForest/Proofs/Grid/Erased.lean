import TokenForest.Proofs.Grid.Views

/-!
# Grids with erased symbols

Erasing parts of the symbols of a grid leaves its positions, and so its rows, lanes and neighbourhoods, as they are.
-/

namespace TokenForest

namespace Grid

variable (f : Symbol → Symbol) (grid : Grid) (p : Position)

/-- A cell with its symbol erased. -/
def eraseCell (cell : Position × Symbol) : Position × Symbol := (cell.1, f cell.2)

/-- A grid with its symbols erased. -/
def erase : Grid := { grid with cells := grid.cells.map (eraseCell f) }

theorem positions_erase : (grid.erase f).positions = grid.positions := by
  unfold erase positions
  rw [List.map_map]
  rfl

theorem symbolAt?_erase : (grid.erase f).symbolAt? p = (grid.symbolAt? p).map f := by
  unfold erase symbolAt?
  induction grid.cells with
  | nil => rfl
  | cons cell cells ih =>
    rw [List.map_cons, List.lookup_cons, List.lookup_cons, ih]
    change (match p == cell.1 with | true => some (f cell.2) | false => _) = _
    cases p == cell.1 <;> rfl

theorem lanes_erase : (grid.erase f).lanes = grid.lanes := by
  unfold lanes
  rw [positions_erase]

theorem lanePositions_erase (lane : Lane) : (grid.erase f).lanePositions lane = grid.lanePositions lane := by
  unfold lanePositions
  rw [positions_erase]

theorem rows_erase (lane : Lane) : (grid.erase f).rows lane = grid.rows lane := by
  unfold rows
  rw [lanePositions_erase]

theorem rowPositions_erase (lane : Lane) (row : Nat) : (grid.erase f).rowPositions lane row = grid.rowPositions lane row := by
  unfold rowPositions
  rw [lanePositions_erase]

theorem columns_erase (lane : Lane) : (grid.erase f).columns lane = grid.columns lane := by
  unfold columns
  rw [lanePositions_erase]

theorem columnPositions_erase (lane : Lane) (column : Nat) :
    (grid.erase f).columnPositions lane column = grid.columnPositions lane column := by
  unfold columnPositions
  rw [lanePositions_erase]

/-- A position keeps its neighbourhood. -/
theorem neighborhood_erase : (grid.erase f).neighborhood p = grid.neighborhood p := by
  refine neighborhood_congr ?_ (positions_erase f grid) p
  rfl

end Grid

end TokenForest
