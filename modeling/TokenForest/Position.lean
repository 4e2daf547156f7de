/-!
# Positions

Where a token stands: the row of its statement, its column in the row, and the process lane when lanes are told apart.
-/

namespace TokenForest

/-- A process lane; none when a token belongs to no process. -/
abbrev Lane := Option Nat

/-- A place in the grid. -/
structure Position where
  row : Nat
  column : Nat
  lane : Lane
  deriving DecidableEq, Repr

namespace Position

/-- Why three numbers are not a position. -/
inductive Fault where
  | negativeCell (row column : Int)
  | negativeLane (lane : Int)
  deriving DecidableEq, Repr

/-- The message of a fault. -/
def Fault.message : Fault → String
  | negativeCell row column => s!"row/column must be >= 0, got ({row}, {column})"
  | negativeLane lane => s!"process must be >= 0, got {lane}"

/-- The position with these numbers, none of which may be negative. -/
def make? (row column : Int) (lane : Option Int) : Except Fault Position :=
  match row, column, lane with
  | .ofNat r, .ofNat c, none => .ok ⟨r, c, none⟩
  | .ofNat r, .ofNat c, some (.ofNat l) => .ok ⟨r, c, some l⟩
  | .ofNat _, .ofNat _, some l => .error (.negativeLane l)
  | r, c, _ => .error (.negativeCell r c)

/-- The place of a lane in the order of lanes; the lane of no process comes first. -/
def laneKey : Lane → Int
  | none => -1
  | some l => l

/-- The sort key: lane, then row, then column. -/
def orderKey (p : Position) : Int × Int × Int := (laneKey p.lane, p.row, p.column)

/-- Lexicographic order of sort keys. -/
def keyLe (a b : Int × Int × Int) : Bool :=
  decide (a.1 < b.1) || (decide (a.1 = b.1) &&
    (decide (a.2.1 < b.2.1) || (decide (a.2.1 = b.2.1) && decide (a.2.2 ≤ b.2.2))))

/-- The order of source: lane by lane, row by row, column by column. -/
def le (a b : Position) : Bool := keyLe a.orderKey b.orderKey

/-- The name of a position in reports. -/
def label (p : Position) : String :=
  match p.lane with
  | none => s!"{p.row}:{p.column}"
  | some l => s!"{l}/{p.row}:{p.column}"

/-- The positions in source order. -/
def sort (ps : List Position) : List Position := ps.mergeSort le

/-- Strictly before in the source: in an earlier lane, in an earlier row of the lane, or in an earlier column of the row. -/
def Before (p q : Position) : Prop :=
  laneKey p.lane < laneKey q.lane ∨ p.lane = q.lane ∧ (p.row < q.row ∨ p.row = q.row ∧ p.column < q.column)

end Position

end TokenForest
