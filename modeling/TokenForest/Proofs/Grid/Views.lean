import Mathlib.Data.List.Perm.Basic
import TokenForest.Grid
import TokenForest.Proofs.Grouping
import TokenForest.Proofs.Position

/-!
# Views of a grid

The rows of a lane hold its positions, and the lanes hold those of the grid, each position once. The cell of every position of
the grid is occupied.
-/

namespace TokenForest

namespace Grid

variable {grid : Grid}

theorem mem_rowPositions {lane : Lane} {row : Nat} {p : Position} :
    p ∈ grid.rowPositions lane row ↔ p ∈ grid.positions ∧ p.lane = lane ∧ p.row = row := by
  simp only [rowPositions, lanePositions, List.mem_filter, decide_eq_true_eq, and_assoc]

/-- The rows of a lane one after the other hold the positions of the lane. -/
theorem flatMap_rowPositions_perm (grid : Grid) (lane : Lane) :
    ((grid.rows lane).flatMap (grid.rowPositions lane)).Perm (grid.lanePositions lane) :=
  Grouping.flatMap_groups_perm (·.row) (grid.lanePositions lane)

/-- The rows of all lanes one after the other hold the positions of the grid. -/
theorem flatMap_lanes_perm (grid : Grid) :
    (grid.lanes.flatMap (fun lane => (grid.rows lane).flatMap (grid.rowPositions lane))).Perm grid.positions :=
  (List.Perm.flatMap_left _ fun lane _ => flatMap_rowPositions_perm grid lane).trans
    (Grouping.flatMap_groups_perm (·.lane) grid.positions)

/-- In a grid in source order the rows of a lane one after the other are the positions of the lane in their order. -/
theorem flatMap_rowPositions_eq (h : grid.positions.Pairwise (fun p q => p.le q = true)) (lane : Lane) :
    (grid.rows lane).flatMap (grid.rowPositions lane) = grid.lanePositions lane := by
  apply Grouping.flatMap_groups_eq (r := (· ≤ ·)) fun a b => Nat.le_antisymm
  refine (h.filter (fun p => decide (p.lane = lane))).imp_of_mem ?_
  intro p q hp hq hle
  have hsame : p.lane = q.lane := (by simpa using (List.mem_filter.1 hp).2 : p.lane = lane).trans
    (by simpa using (List.mem_filter.1 hq).2 : q.lane = lane).symm
  rcases Position.le_iff.1 hle with hlt | ⟨_, hrow | ⟨hrow, _⟩⟩
  · rw [hsame] at hlt
    exact absurd hlt (Int.lt_irrefl _)
  · exact Nat.le_of_lt hrow
  · exact Nat.le_of_eq hrow

/-- In a grid in source order the rows of all lanes one after the other are the positions of the grid in their order. -/
theorem flatMap_lanes_eq (h : grid.positions.Pairwise (fun p q => p.le q = true)) :
    grid.lanes.flatMap (fun lane => (grid.rows lane).flatMap (grid.rowPositions lane)) = grid.positions := by
  simp only [flatMap_rowPositions_eq h]
  apply Grouping.flatMap_groups_eq (r := fun a b => Position.laneKey a ≤ Position.laneKey b)
  · exact fun a b hab hba => Position.laneKey_injective (Int.le_antisymm hab hba)
  · refine h.imp ?_
    intro p q hle
    rcases Position.le_iff.1 hle with hlt | ⟨hsame, _⟩
    · exact Int.le_of_lt hlt
    · exact Int.le_of_eq (congrArg _ hsame)

/-- Every position of a grid has a symbol. -/
theorem exists_symbolAt? {p : Position} (h : p ∈ grid.positions) : ∃ s, grid.symbolAt? p = some s := by
  obtain ⟨staged, cells⟩ := grid
  simp only [symbolAt?, positions] at h ⊢
  induction cells with
  | nil => simp at h
  | cons cell cells ih =>
    rw [List.lookup_cons]
    split
    · exact ⟨cell.2, rfl⟩
    · rename_i hp
      rw [beq_eq_false_iff_ne] at hp
      exact ih (by simpa [hp] using h)

/-- The symbol at a position is that of a cell. -/
theorem mem_cells_of_symbolAt? {p : Position} {s : Symbol} (h : grid.symbolAt? p = some s) : (p, s) ∈ grid.cells := by
  obtain ⟨front, back, hcells, _⟩ := List.lookup_eq_some_iff.1 h
  rw [hcells]
  simp

/-- Where no position has two cells, the symbol of a cell is the symbol at its position. -/
theorem symbolAt?_of_mem_cells (hnodup : grid.positions.Nodup) {p : Position} {s : Symbol} (h : (p, s) ∈ grid.cells) :
    grid.symbolAt? p = some s := (lookup_eq_some_iff_mem hnodup).2 h

theorem occupied_iff {p : Position} : grid.occupied p = true ↔ p ∈ grid.positions := by
  unfold occupied
  rw [Option.isSome_iff_exists]
  constructor
  · rintro ⟨s, hs⟩
    exact List.mem_map_of_mem (f := Prod.fst) (mem_cells_of_symbolAt? hs)
  · exact exists_symbolAt?

/-- Grids with the same positions have the same neighbourhoods. -/
theorem neighborhood_congr {grid' : Grid} (hstaged : grid.staged = grid'.staged) (hpositions : grid.positions = grid'.positions)
    (p : Position) : grid.neighborhood p = grid'.neighborhood p := by
  have hoccupied : grid.occupied = grid'.occupied := by
    funext q
    rw [Bool.eq_iff_iff, occupied_iff, occupied_iff, hpositions]
  unfold neighborhood rowPositions lanePositions aboveBelow counterparts lanes
  rw [hpositions, hoccupied, hstaged]

end Grid

end TokenForest
