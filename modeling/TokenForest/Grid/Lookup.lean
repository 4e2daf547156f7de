import TokenForest.Fault
import TokenForest.Grid

/-!
# Reading cells

A position that is read has to be occupied, and a position whose place in a row is asked for has to be in the row. Where
this does not hold, the computation that reads has no result.
-/

namespace TokenForest

namespace Grid

/-- The symbol in the cell of a position. -/
def cell (g : Grid) (p : Position) : Except TokenForest.Fault Symbol :=
  match g.symbolAt? p with
  | some s => .ok s
  | none => .error (.emptyCell p)

/-- The symbols in the cells of some positions. -/
def symbolsAt (g : Grid) (ps : List Position) : Except TokenForest.Fault (List Symbol) := ps.mapM g.cell

/-- The place of a position in a row. -/
def placeIn (row : List Position) (p : Position) : Except TokenForest.Fault Nat :=
  match row.idxOf? p with
  | some i => .ok i
  | none => .error (.outsideRow p)

end Grid

end TokenForest
