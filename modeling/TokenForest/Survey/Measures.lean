import Mathlib.Algebra.Ring.Int.Defs
import TokenForest.Survey.Balance

/-!
# Measures of brackets

The brackets among lexemes counted without a scan, and what the profiles of the columns and the balance of a lane are to them.
-/

namespace TokenForest

namespace Balance

/-- The number of lexemes that open a bracket. -/
def openers (grammar : Grammar) (lexemes : List String) : Nat := lexemes.countP grammar.opens

/-- The number of lexemes that close a bracket. One that opens a bracket, too, is not among them. -/
def closers (grammar : Grammar) (lexemes : List String) : Nat := lexemes.countP (fun l => grammar.closes l && !grammar.opens l)

/-- The openers without the closers. -/
def openDepth (grammar : Grammar) (lexemes : List String) : Int := openers grammar lexemes - closers grammar lexemes

/-- No prefix has more closers than openers, and there are as many of both. -/
structure Balanced (grammar : Grammar) (lexemes : List String) : Prop where
  prefixes : ∀ front, front <+: lexemes → closers grammar front ≤ openers grammar front
  totals : closers grammar lexemes = openers grammar lexemes

/-- A greatest depth, a last depth and a mark of balance as the lexemes have them. -/
structure Measures (grammar : Grammar) (lexemes : List String) (maxDepth finalDepth : Int) (balanced : Bool) : Prop where
  final : finalDepth = openDepth grammar lexemes
  reached : ∃ front, front <+: lexemes ∧ openDepth grammar front = maxDepth
  greatest : ∀ front, front <+: lexemes → openDepth grammar front ≤ maxDepth
  final_le : finalDepth ≤ maxDepth
  balanced_iff : balanced = true ↔ Balanced grammar lexemes

/-- The cells are those of the grid at the positions picked, each once, one before the other. -/
structure InOrder (grid : Grid) (picked : Position → Prop) (before : Position → Position → Prop) (cells : List (Position × Symbol)) :
    Prop where
  mem_iff : ∀ cell, cell ∈ cells ↔ cell ∈ grid.cells ∧ picked cell.1
  ascending : cells.Pairwise (fun a b => before a.1 b.1)

/-- The lexemes of cells from first to last. -/
def lexemesOf (cells : List (Position × Symbol)) : List String := cells.map (·.2.lexeme)

/-- The profiles of the columns of a lane and the balance of the lane are of the same cells. -/
structure Agree (grid : Grid) (grammar : Grammar) (lane : Lane) : Prop where
  /-- Every occupied column has one profile. -/
  columns : ((columnProfiles grid grammar lane).map (·.column)).Nodup ∧ ∀ column,
    column ∈ (columnProfiles grid grammar lane).map (·.column) ↔ ∃ p, grid.occupied p = true ∧ p.lane = lane ∧ p.column = column
  /-- The profile of a column measures the cells of the column from top to bottom. -/
  downColumns : ∀ c ∈ columnProfiles grid grammar lane, c.lane = lane ∧ ∃ cells,
    InOrder grid (fun p => p.lane = lane ∧ p.column = c.column) (fun p q => p.row < q.row) cells ∧
      Measures grammar (lexemesOf cells) c.maxDepth c.finalDepth c.balanced
  /-- The balance of the lane measures the cells of the lane in source order. -/
  overLane : (ofLane grid grammar lane).lane = lane ∧ ∃ cells, InOrder grid (fun p => p.lane = lane) Position.Before cells ∧
    Measures grammar (lexemesOf cells) (ofLane grid grammar lane).maxDepth (ofLane grid grammar lane).finalDepth
      (ofLane grid grammar lane).balanced
  /-- The columns together come to the depth of the lane. -/
  total : ((columnProfiles grid grammar lane).map (·.finalDepth)).sum = (ofLane grid grammar lane).finalDepth

end Balance

end TokenForest
