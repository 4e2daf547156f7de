import TokenForest.Decision
import TokenForest.FileTree
import TokenForest.Grid.Placement
import TokenForest.Json.Writer

/-!
# Faults

Everything that can stop a computation, by cause.
-/

namespace TokenForest

/-- Why a computation has no result. -/
inductive Fault where
  | config (fault : Config.Fault)
  | grid (fault : Grid.Fault)
  | position (fault : Position.Fault)
  | symbol (fault : Symbol.Fault)
  | record (fault : TokenRecord.Fault)
  | recordLine (file : String) (line : Nat) (fault : TokenRecord.Fault)
  | components (fault : Components.Fault)
  | decision (fault : Decision.Fault)
  | decidedTwice (position : Position)
  | emptyCell (position : Position)
  | outsideRow (position : Position)
  | rowIndex
  | emptyColumn
  | unknownClass
  | terminalWithoutSymbol
  | terminalWithChildren
  | foreignRepresentative
  | nodeIndex
  | write (fault : Json.WriteFault)
  | notJson
  | files (fault : FileTree.Fault)
  deriving DecidableEq, Repr

namespace Fault

/-- The reason code of a fault in a configuration or in the structure of a stream. -/
def reason? : Fault → Option String
  | config fault => some fault.reason
  | grid fault => fault.reason?
  | recordLine _ _ _ => some "invalid_record"
  | _ => none

/-- The message of a fault. -/
def message : Fault → String
  | config fault => fault.message
  | grid fault => fault.message
  | position fault => fault.message
  | symbol fault => fault.message
  | record fault => fault.message
  | recordLine file line fault => s!"invalid_record: {file} line {line}: {fault.message}"
  | components fault => fault.message
  | decision fault => fault.message
  | decidedTwice p => s!"position {p.label} decided twice"
  | emptyCell p => s!"no symbol at {p.label}"
  | outsideRow p => s!"{p.label} is not in its row"
  | rowIndex => "list index out of range"
  | emptyColumn => "zero-size array to reduction operation maximum which has no identity"
  | unknownClass => "unknown symbol class"
  | terminalWithoutSymbol => "terminal node must wrap a symbol"
  | terminalWithChildren => "terminal node cannot own children"
  | foreignRepresentative => "canonical representative must be a class member"
  | nodeIndex => "list index out of range"
  | write fault => fault.message
  | notJson => "not a JSON document"
  | files fault => fault.message

end Fault

end TokenForest
