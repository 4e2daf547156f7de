import TokenForest.Grammar
import TokenForest.Grid.Lookup

/-!
# Bracket depth

The depth of open brackets down each column and over each lane. An opener adds one, a closer takes one away, and a lexeme
that is both counts as an opener.
-/

namespace TokenForest

/-- The bracket depth down a column. -/
structure ColumnProfile where
  lane : Lane
  column : Nat
  maxDepth : Int
  finalDepth : Int
  underflowRows : List Nat
  deriving DecidableEq, Repr

/-- The bracket depth over a lane in source order. -/
structure LaneBalance where
  lane : Lane
  maxDepth : Int
  finalDepth : Int
  underflow : List Position
  deriving DecidableEq, Repr

/-- Every bracket of the column is closed, and none before it is opened. -/
def ColumnProfile.balanced (c : ColumnProfile) : Bool := decide (c.finalDepth = 0) && c.underflowRows.isEmpty

/-- Every bracket of the lane is closed, and none before it is opened. -/
def LaneBalance.balanced (b : LaneBalance) : Bool := decide (b.finalDepth = 0) && b.underflow.isEmpty

namespace Balance

/-- What a lexeme adds to the depth. -/
def delta (grammar : Grammar) (lexeme : String) : Int :=
  if grammar.opens lexeme then 1 else if grammar.closes lexeme then -1 else 0

/-- The depth after each of some steps, from a depth on. -/
def depths (start : Int) : List Int → List Int
  | [] => []
  | d :: rest => (start + d) :: depths (start + d) rest

/-- The greatest depth, zero at least. -/
def greatest (ds : List Int) : Int := ds.foldl max 0

/-- The depth at the end, zero without steps. -/
def final (ds : List Int) : Int := ds.getLast?.getD 0

/-- The positions where the depth is negative. -/
def underflow (ps : List Position) (ds : List Int) : List Position :=
  ((ps.zip ds).filter (fun e => decide (e.2 < 0))).map (·.1)

/-- The profile of a column with these positions and steps. -/
def columnOf (lane : Lane) (column : Nat) (ps : List Position) (steps : List Int) : ColumnProfile :=
  let ds := depths 0 steps
  ⟨lane, column, greatest ds, final ds, (underflow ps ds).map (·.row)⟩

/-- The balance of a lane with these positions and steps. -/
def laneOf (lane : Lane) (ps : List Position) (steps : List Int) : LaneBalance :=
  let ds := depths 0 steps
  ⟨lane, greatest ds, final ds, underflow ps ds⟩

/-- The positions of a lane row by row. -/
def laneOrder (grid : Grid) (lane : Lane) : List Position := (grid.rows lane).flatMap (grid.rowPositions lane)

/-! ## Scanning -/

/-- The steps of the symbols in the cells of some positions. -/
def deltas? (grid : Grid) (grammar : Grammar) (ps : List Position) : Except Fault (List Int) := do
  return (← grid.symbolsAt ps).map (fun s => delta grammar s.lexeme)

/-- The profile of a column from its cells. Without steps there is no greatest depth. -/
def columnProfile? (grid : Grid) (grammar : Grammar) (lane : Lane) (column : Nat) : Except Fault ColumnProfile := do
  let ps := grid.columnPositions lane column
  match ← deltas? grid grammar ps with
  | [] => .error .emptyColumn
  | first :: rest => return columnOf lane column ps (first :: rest)

/-- Scans the columns of a lane and the lane as a whole. -/
def scanLane (grid : Grid) (grammar : Grammar) (lane : Lane) : Except Fault (List ColumnProfile × LaneBalance) := do
  let profiles ← (grid.columns lane).mapM (columnProfile? grid grammar lane)
  let ps := laneOrder grid lane
  return (profiles, laneOf lane ps (← deltas? grid grammar ps))

/-! ## What the scans report

Every position of a column and of a lane is occupied, so the scans come to an end, with the following. -/

/-- The steps of the symbols at some positions, zero where there is none. -/
def deltas (grid : Grid) (grammar : Grammar) (ps : List Position) : List Int :=
  ps.map (fun p => (grid.symbolAt? p).elim 0 (fun s => delta grammar s.lexeme))

/-- The profile of a column. -/
def columnProfile (grid : Grid) (grammar : Grammar) (lane : Lane) (column : Nat) : ColumnProfile :=
  let ps := grid.columnPositions lane column
  columnOf lane column ps (deltas grid grammar ps)

/-- The profiles of the columns of a lane. -/
def columnProfiles (grid : Grid) (grammar : Grammar) (lane : Lane) : List ColumnProfile :=
  (grid.columns lane).map (columnProfile grid grammar lane)

/-- The balance of a lane. -/
def ofLane (grid : Grid) (grammar : Grammar) (lane : Lane) : LaneBalance :=
  let ps := laneOrder grid lane
  laneOf lane ps (deltas grid grammar ps)

end Balance

end TokenForest
