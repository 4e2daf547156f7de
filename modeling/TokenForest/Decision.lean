import TokenForest.Confidence
import TokenForest.Position
import TokenForest.Symbol

/-!
# Decisions

What becomes of a position: its symbol is accepted as it is, replaced by another reading, left to a person, or not
processed at all. Which of these states carry a symbol is part of the type.
-/

namespace TokenForest

/-- The state of a position. -/
inductive Status where
  | pending
  | accepted
  | flagged
  | resolved
  | manualReview
  | notProcessed
  | other (name : String)
  deriving DecidableEq, Repr

namespace Status

/-- The state with this name. -/
def ofName (name : String) : Status :=
  match name with
  | "pending" => pending
  | "accepted" => accepted
  | "flagged" => flagged
  | "resolved" => resolved
  | "manual_review" => manualReview
  | "not_processed" => notProcessed
  | _ => other name

/-- The name of a state. -/
def name : Status → String
  | pending => "pending"
  | accepted => "accepted"
  | flagged => "flagged"
  | resolved => "resolved"
  | manualReview => "manual_review"
  | notProcessed => "not_processed"
  | other name => name

/-- The position takes part in the forest. -/
def isAdmitted : Status → Bool
  | accepted => true
  | resolved => true
  | _ => false

/-- The position is left to a person. -/
def isExcluded : Status → Bool
  | manualReview => true
  | notProcessed => true
  | _ => false

end Status

/-- Why a position does not have its symbol yet, or an alternative reading was refused. -/
inductive ReasonCode where
  | belowThreshold
  | componentMinimum
  | intentChanged
  | noAlternative
  | notProcessed
  deriving DecidableEq, Repr

namespace ReasonCode

/-- The name of a reason code. -/
def name : ReasonCode → String
  | belowThreshold => "below_threshold"
  | componentMinimum => "component_minimum"
  | intentChanged => "intent_changed"
  | noAlternative => "no_alternative"
  | notProcessed => "not_processed"

end ReasonCode

namespace Decision

/-- Why a state and a symbol do not go together. -/
inductive Fault where
  | symbolMissing (status : Status)
  | symbolPresent (status : Status)
  | notTerminal (status : Status)
  deriving DecidableEq, Repr

/-- The message of a fault. -/
def Fault.message : Fault → String
  | symbolMissing status => s!"{status.name} decision must carry a symbol"
  | symbolPresent status => s!"{status.name} decision must not carry a symbol"
  | notTerminal status => s!"{status.name} is not a terminal decision state"

/-- An admitted position has a symbol, an excluded one has none, and a decision is final. -/
def fault? (status : Status) (symbol : Option Symbol) : Option Fault :=
  if status.isAdmitted && symbol.isNone then some (.symbolMissing status)
  else if status.isExcluded && symbol.isSome then some (.symbolPresent status)
  else if status = .pending ∨ status = .flagged then some (.notTerminal status)
  else none

end Decision

/-- The final state of a position. `psi` is the confidence of its symbol as read first, `finalPsi` that of the symbol it
ends with. -/
structure Decision where
  position : Position
  original : Symbol
  symbol : Option Symbol
  status : Status
  psi : Binary64
  finalPsi : Binary64
  threshold : Binary64
  components : Option Components
  bestConfidence : Binary64
  reasonCodes : List ReasonCode
  coherent : Decision.fault? status symbol = none
  deriving DecidableEq

namespace Decision

/-- An accepted position keeps its symbol. -/
def accept (p : Position) (s : Symbol) (b : Breakdown) (threshold : Binary64) : Decision where
  position := p
  original := s
  symbol := some s
  status := .accepted
  psi := b.psi
  finalPsi := b.psi
  threshold := threshold
  components := some b.components
  bestConfidence := b.psi
  reasonCodes := []
  coherent := rfl

/-- A resolved position gets another reading of its symbol. -/
def resolve (p : Position) (s chosen : Symbol) (original final : Breakdown) (threshold best : Binary64) :
    Decision where
  position := p
  original := s
  symbol := some chosen
  status := .resolved
  psi := original.psi
  finalPsi := final.psi
  threshold := threshold
  components := some final.components
  bestConfidence := best
  reasonCodes := []
  coherent := rfl

/-- A position left to a person, with the reasons. -/
def review (p : Position) (s : Symbol) (original : Breakdown) (threshold best : Binary64) (reasons : List ReasonCode) :
    Decision where
  position := p
  original := s
  symbol := none
  status := .manualReview
  psi := original.psi
  finalPsi := 0
  threshold := threshold
  components := some original.components
  bestConfidence := best
  reasonCodes := reasons
  coherent := rfl

/-- A position that was not processed; `psi` is its confidence as far as it was computed. -/
def skip (p : Position) (s : Symbol) (psi : Binary64) : Decision where
  position := p
  original := s
  symbol := none
  status := .notProcessed
  psi := psi
  finalPsi := 0
  threshold := 0
  components := none
  bestConfidence := psi
  reasonCodes := [.notProcessed]
  coherent := rfl

end Decision

end TokenForest
