import TokenForest.Fault
import TokenForest.Grammar

/-!
# Intents of symbols and statements

What a symbol does follows from its hint and its neighbours in the row, and where these leave it open from the row as a
whole. A node may stand below another only where the grammar permits its intent; an intent that is not permitted gives
way once to the nearest one that is.
-/

namespace TokenForest

namespace Intents

/-! ## Classification -/

/-- The hints that settle the intent of a row, the strongest first. -/
def statementPriority : List (Hint × Intent) := [
  (.process, .processTransition),
  (.controlKeyword, .control),
  (.typeKeyword, .declare),
  (.operatorAssign, .assign),
  (.query, .query),
  (.call, .invoke)]

/-- The intent of a row: that of its strongest hint, and a call of something when no hint settles it. -/
def ofStatement (row : List Symbol) : Intent :=
  match statementPriority.find? (fun entry => row.any (fun s => decide (s.hint = entry.1))) with
  | some entry => entry.2
  | none => .invoke

/-- The intent of a symbol between its neighbours in a row of the given intent. -/
def ofSymbol (grammar : Grammar) (left : Option Symbol) (s : Symbol) (right : Option Symbol) (statement : Intent) :
    Intent :=
  match s.hint with
  | .typeKeyword => .declare
  | .controlKeyword => .control
  | .process => .processTransition
  | .operatorAssign => .assign
  | .query => .query
  | .call => .invoke
  | .identifier =>
    if left.any (fun l => decide (l.hint = .typeKeyword)) then .declare
    else if right.any (fun r => decide (r.hint = .operatorAssign)) then .assign
    else if right.any (fun r => grammar.opensGroup r.lexeme) then .invoke
    else statement
  | .closure => if right.isNone then .terminate else statement
  | .literal | .operator | .delimiter | .other _ => statement

/-- The intent of the symbol at an index of a row. -/
def intentIn (grammar : Grammar) (row : List Symbol) (index : Fin row.length) : Intent :=
  ofSymbol grammar (if index.val = 0 then none else row[index.val - 1]?) row[index] row[index.val + 1]? (ofStatement row)

/-- The intent of the symbol at an index, which has to be one of the row. -/
def classify? (grammar : Grammar) (row : List Symbol) (index : Nat) : Except Fault Intent :=
  if h : index < row.length then .ok (intentIn grammar row ⟨index, h⟩) else .error .rowIndex

/-- The intent of the symbol at an index of a row, for any number: there is none to settle outside of the row. -/
def classify (grammar : Grammar) (row : List Symbol) (index : Nat) : Intent :=
  match row[index]? with
  | none => .unresolved
  | some s =>
    ofSymbol grammar (if index = 0 then none else row[index - 1]?) s row[index + 1]? (ofStatement row)

/-- Another reading of the original intent may have this intent. -/
def compatible (grammar : Grammar) (original candidate : Intent) : Bool :=
  decide (original = candidate) || grammar.compatible.contains (original, candidate)

/-! ## The gate -/

/-- The outcome of validating an intent under a parent: the intent that is admitted, if any, and whether it is not the
original one. -/
structure Verdict where
  original : Intent
  admitted : Option Intent
  coerced : Bool
  deriving DecidableEq, Repr

/-- An intent under a parent: admitted as it is, or as the first of its fallbacks that is permitted, or refused. -/
def validate (grammar : Grammar) (parent : Option Intent) (child : Intent) : Verdict :=
  if grammar.permits parent child then ⟨child, some child, false⟩
  else match (grammar.fallbacks child).find? (grammar.permits parent) with
    | some fallback => ⟨child, some fallback, true⟩
    | none => ⟨child, none, false⟩

end Intents

end TokenForest
