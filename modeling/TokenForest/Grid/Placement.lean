import TokenForest.Grammar
import TokenForest.Grid
import TokenForest.Record

/-!
# Placing a stream of records

Records are placed one by one. A record without a row stays in the row of the previous record of its lane; one without a
column goes right of everything in its lane and row. Rows of a lane never go back, and no cell is used twice.
-/

namespace TokenForest

namespace Grid

/-- Why a stream of records has no grid; records are numbered from 1. -/
inductive Fault where
  | rowBack (record : Nat) (lane : Option Int) (current : Nat) (row : Int)
  | badPosition (record : Nat) (fault : Position.Fault)
  | duplicate (record : Nat) (lexeme : String) (position : Position)
  | longPosition
  | unknownClass
  | badSymbol (fault : Symbol.Fault)
  deriving DecidableEq, Repr

namespace Fault

/-- The name of a lane in a message. -/
def laneText : Option Int → String
  | none => "None"
  | some l => toString l

/-- The reason code of a fault in the structure of the stream. -/
def reason? : Fault → Option String
  | rowBack _ _ _ _ => some "non_monotonic_row"
  | badPosition _ _ => some "invalid_position"
  | duplicate _ _ _ => some "duplicate_position"
  | longPosition => none
  | unknownClass => none
  | badSymbol _ => none

/-- What is wrong, in words. -/
def description : Fault → String
  | rowBack record lane current row =>
    s!"record {record} moves lane {laneText lane} from row {current} back to row {row}"
  | badPosition record fault => s!"record {record}: {fault.message}"
  | duplicate record lexeme position =>
    s!"record {record} ({Text.quoted lexeme}) reuses position {position.label}"
  | longPosition =>
    "Exceeds the limit (4300 digits) for integer string conversion; "
      ++ "use sys.set_int_max_str_digits() to increase the limit"
  | unknownClass => ""
  | badSymbol fault => fault.message

/-- The message: the reason code, where there is one, and what is wrong. -/
def message (fault : Fault) : String :=
  match fault.reason? with
  | some reason => s!"{reason}: {fault.description}"
  | none => fault.description

end Fault

/-- A number with at least five digits. -/
def fiveDigits (n : Nat) : String :=
  let digits := toString n
  String.ofList (List.replicate (5 - digits.length) '0') ++ digits

/-- A coordinate is short enough to be written: it has at most as many digits as an integer that is read. -/
def isWritable (n : Nat) : Bool := decide (n < Nat.pow 10 Numeral.maxDigits)

/-- The coordinates of a position are short enough for it to have a label. -/
def hasLabel (p : Position) : Bool := isWritable p.row && isWritable p.column && p.lane.all isWritable

/-- The name of the symbol of a record at a position. -/
def symbolName (record : Nat) (p : Position) : String := s!"sym_{fiveDigits record}_{p.label}"

/-- The position is in the lane that a record states. -/
def inLane (lane : Option Int) (p : Position) : Bool := decide (p.lane.map Int.ofNat = lane)

/-- The row of the last cell placed in a lane; 0 in an empty lane. The latest cell comes first. -/
def currentRow (placed : List (Position × Symbol)) (lane : Option Int) : Nat :=
  ((placed.find? (fun c => inLane lane c.1)).map (·.1.row)).getD 0

/-- One more than the greatest column used in a lane and row; 0 in an empty row. -/
def nextColumn (placed : List (Position × Symbol)) (lane : Option Int) (row : Int) : Nat :=
  (placed.filter (fun c => inLane lane c.1 && decide ((c.1.row : Int) = row))).foldl
    (fun n c => max n (c.1.column + 1)) 0

/-- The symbol of a record at a position. -/
def symbolOf (grammar : Grammar) (number : Nat) (p : Position) (r : TokenRecord) : Except Fault Symbol :=
  if !hasLabel p then .error .longPosition
  else match grammar.hintOf? r.symbolClass r.typeTag r.intentHint with
  | none => .error .unknownClass
  | some hint =>
    let symbol : Symbol := {
      id := symbolName number p
      symbolClass := r.symbolClass
      lexeme := r.lexeme
      typeTag := r.typeTag
      hint
      lexicalScore := r.score
      stage := r.stage
      process := r.process
      phase := r.phase }
    symbol.check.mapError .badSymbol

/-- The cell of the next record, after the cells already placed, the latest first. -/
def place (staged : Bool) (grammar : Grammar) (placed : List (Position × Symbol)) (number : Nat) (r : TokenRecord) :
    Except Fault (Position × Symbol) := do
  let lane := if staged then r.process else none
  let current := currentRow placed lane
  let row : Int := r.row.getD current
  if row < current then .error (.rowBack number lane current row)
  let column : Int := r.column.getD (nextColumn placed lane row)
  let p ← (Position.make? row column lane).mapError (.badPosition number)
  if placed.any (fun c => decide (c.1 = p)) then .error (.duplicate number r.lexeme p)
  let symbol ← symbolOf grammar number p r
  return (p, symbol)

/-- Places records from a number on, after the cells already placed; the latest cell comes first. -/
def placeAll (staged : Bool) (grammar : Grammar) :
    List (Position × Symbol) → Nat → List TokenRecord → Except Fault (List (Position × Symbol))
  | placed, _, [] => .ok placed
  | placed, number, r :: rest => do
    let cell ← place staged grammar placed number r
    placeAll staged grammar (cell :: placed) (number + 1) rest

/-- The cells in source order. -/
def sortCells (cells : List (Position × Symbol)) : List (Position × Symbol) :=
  cells.mergeSort (fun a b => a.1.le b.1)

/-- The grid of a stream of records. -/
def organize (records : List TokenRecord) (staged : Bool) (grammar : Grammar) : Except Fault Grid := do
  let placed ← placeAll staged grammar [] 1 records
  return ⟨staged, sortCells placed⟩

end Grid

end TokenForest
