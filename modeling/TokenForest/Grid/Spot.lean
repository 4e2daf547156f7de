import TokenForest.Grid.Placement

/-!
# Where records belong

The places to which the records of a stream belong, before any of them is refused, and the cells that they get.
-/

namespace TokenForest

namespace Grid

/-! ## Coordinates -/

/-- The lane in which a record is placed. -/
def laneOf (staged : Bool) (r : TokenRecord) : Option Int := if staged then r.process else none

/-- The first coordinate that is too long to be written. -/
def tooLong : Nat := Nat.pow 10 Numeral.maxDigits

/-- The coordinates that a record states. -/
def statedBy (r : TokenRecord) : List Int := r.row.toList ++ r.column.toList ++ r.process.toList

/-- The coordinates that the records state, and 0, are so short that no record can be placed beyond the ones that can be written: a
column that is not stated is at most one more than the one before. -/
def Writable (records : List TokenRecord) : Prop := ∀ x ∈ 0 :: records.flatMap statedBy, x + records.length ≤ tooLong

/-! ## Spots -/

/-- The place a record belongs to: a lane, a row and a column, which may be negative. -/
structure Spot where
  lane : Option Int
  row : Int
  column : Int
  deriving DecidableEq, Repr

namespace Spot

/-- The row of the last spot in a lane; 0 in an empty lane. The latest spot comes first. -/
def lastRow (before : List Spot) (lane : Option Int) : Int :=
  ((before.find? (fun s => decide (s.lane = lane))).map (·.row)).getD 0

/-- The columns that are used in a row of a lane. -/
def usedColumns (before : List Spot) (lane : Option Int) (row : Int) : List Int :=
  (before.filter (fun s => decide (s.lane = lane ∧ s.row = row))).map (·.column)

/-- One more than the greatest column that is used in a row of a lane; 0 in an empty row. -/
def freeColumn (before : List Spot) (lane : Option Int) (row : Int) : Int :=
  (usedColumns before lane row).max?.elim 0 (· + 1)

/-- The spot of a record behind others: what it does not state is read off the spots before it. -/
def ofRecord (staged : Bool) (before : List Spot) (r : TokenRecord) : Spot :=
  let row := r.row.getD (lastRow before (laneOf staged r))
  ⟨laneOf staged r, row, r.column.getD (freeColumn before (laneOf staged r) row)⟩

/-- The spots of records behind others, in the order of the records. -/
def spotsFrom (staged : Bool) : List Spot → List TokenRecord → List Spot
  | _, [] => []
  | before, r :: rest => ofRecord staged before r :: spotsFrom staged (ofRecord staged before r :: before) rest

/-- The spots of the records of a stream. -/
def spots (staged : Bool) (records : List TokenRecord) : List Spot := spotsFrom staged [] records

/-- The spot of a record behind the records of a stream. -/
def behind (staged : Bool) (front : List TokenRecord) (r : TokenRecord) : Spot := ofRecord staged (spots staged front).reverse r

/-- The rows of every lane ascend from 0, columns and lanes are not negative, and no two spots are the same. -/
structure WellPlaced (spots : List Spot) : Prop where
  rows : ∀ lane, (0 :: (spots.filter (fun s => decide (s.lane = lane))).map (·.row)).Pairwise (· ≤ ·)
  columns : ∀ s ∈ spots, 0 ≤ s.column
  lanes : ∀ s ∈ spots, ∀ l ∈ s.lane, 0 ≤ l
  distinct : spots.Nodup

/-- The reason for which a spot is refused behind others: its row is too small, else it has a negative column or lane, else it is
taken. -/
def refusal? (before : List Spot) (s : Spot) : Option String :=
  if s.row < lastRow before s.lane then some "non_monotonic_row"
  else if s.column < 0 ∨ ∃ l ∈ s.lane, l < 0 then some "invalid_position"
  else if s ∈ before then some "duplicate_position"
  else none

/-- The spot of a position. -/
def ofPosition (p : Position) : Spot := ⟨p.lane.map Int.ofNat, p.row, p.column⟩

/-- The spots of cells. -/
def ofCells (placed : List (Position × Symbol)) : List Spot := placed.map (fun c => ofPosition c.1)

/-- The coordinates of the spot are short enough to be written. -/
def Short (s : Spot) : Prop := s.row < tooLong ∧ s.column < tooLong ∧ ∀ l ∈ s.lane, l < tooLong

instance (s : Spot) : Decidable s.Short :=
  inferInstanceAs (Decidable (s.row < tooLong ∧ s.column < tooLong ∧ ∀ l ∈ s.lane, l < tooLong))

end Spot

/-! ## Cells and faults -/

/-- The number of the record that a fault in the structure of a stream names. -/
def Fault.record? : Fault → Option Nat
  | rowBack record _ _ _ => some record
  | badPosition record _ => some record
  | duplicate record _ _ => some record
  | longPosition => none
  | unknownClass => none
  | badSymbol _ => none

/-- The symbol says what the record says. -/
structure Carries (r : TokenRecord) (symbol : Symbol) : Prop where
  symbolClass : symbol.symbolClass = r.symbolClass
  typeTag : symbol.typeTag = r.typeTag
  lexeme : symbol.lexeme = r.lexeme
  score : symbol.lexicalScore = r.score
  stage : symbol.stage = r.stage
  process : symbol.process = r.process
  phase : symbol.phase = r.phase

/-- The cell that a record gets under its number. -/
structure CellOf (staged : Bool) (grammar : Grammar) (number : Nat) (r : TokenRecord) (cell : Position × Symbol) : Prop where
  row : ∀ x, r.row = some x → (cell.1.row : Int) = x
  column : ∀ x, r.column = some x → (cell.1.column : Int) = x
  lane : cell.1.lane.map Int.ofNat = if staged then r.process else none
  symbol : symbolOf grammar number cell.1 r = .ok cell.2

/-- The record with an index gets the cell of a position. -/
def PlacedAt (staged : Bool) (grammar : Grammar) (records : List TokenRecord) (k : Nat) (p : Position) : Prop :=
  ∃ s earlier, placeAll staged grammar [] 1 (records.take (k + 1)) = .ok ((p, s) :: earlier)

/-! ## Lanes of streams -/

/-- The records of a lane. -/
def laneRecords (lane : Option Int) (records : List TokenRecord) : List TokenRecord :=
  records.filter (fun r => decide (r.process = lane))

/-- The streams have the same records in the same order on every lane. -/
def SameLanes (records records' : List TokenRecord) : Prop := ∀ lane, laneRecords lane records = laneRecords lane records'

end Grid

end TokenForest
