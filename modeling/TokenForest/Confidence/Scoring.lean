import TokenForest.Confidence
import TokenForest.Grammar
import TokenForest.Grid

/-!
# Scoring a symbol at a position

The standard score of a symbol: how well its lexeme fits its tag, how plausible its hint is at this end or in the middle
of the row, whether its hint agrees with those of its row neighbours, and whether its stage, process and phase are active.
-/

namespace TokenForest

namespace Scoring

/-- The share of the reported score that is left when the lexeme does not fit its tag. -/
def mismatchFactor : Binary64 := 0.2

/-- How well the lexeme is recognized: the reported score, discounted when the lexeme does not fit its tag. -/
def lexical (s : Symbol) (grammar : Grammar) : Binary64 :=
  let fits := grammar.recognizes s.symbolClass s.typeTag s.lexeme
  (s.lexicalScore * (if fits then 1 else mismatchFactor)).clampUnit

/-- How plausible a hint is at the start, in the middle and at the end of a row; a hint that is not on the list has no
entry. -/
def placePriors : Hint → Except Components.Fault (Binary64 × Binary64 × Binary64)
  | .typeKeyword => .ok (1, 0.5, 0.5)
  | .controlKeyword => .ok (1, 0.5, 0.5)
  | .process => .ok (1, 0.5, 0.5)
  | .operatorAssign => .ok (0.1, 1, 0.2)
  | .operator => .ok (0.4, 1, 0.2)
  | .query => .ok (0.2, 1, 1)
  | .closure => .ok (0.4, 0.8, 1)
  | .identifier => .ok (1, 1, 1)
  | .literal => .ok (1, 1, 1)
  | .call => .ok (1, 1, 1)
  | .delimiter => .ok (1, 1, 1)
  | .other name => .error (.noPriors name)

/-- The prior of the place that the symbol has in its row. A block closer belongs at the start of a row. -/
def placePrior (s : Symbol) (left right : Option Symbol) (grammar : Grammar) (priors : Binary64 × Binary64 × Binary64) :
    Binary64 :=
  match left, right with
  | none, _ => if s.hint = .closure ∧ grammar.closesBlock s.lexeme then 1 else priors.1
  | some _, none => priors.2.2
  | some _, some _ => priors.2.1

/-- How plausible the symbol is at its place in the row. -/
def positional (s : Symbol) (left right : Option Symbol) (grammar : Grammar) : Except Components.Fault Binary64 := do
  return placePrior s left right grammar (← placePriors s.hint)

/-- How well the hint agrees with the hints of the row neighbours. -/
def typeConsistency (s : Symbol) (left right : Option Symbol) : Binary64 :=
  let leftOk := Grammar.canFollow (left.map (·.hint)) s.hint
  let rightOk := match right with
    | none => Grammar.canEndRow s.hint
    | some r => Grammar.canFollow (some s.hint) r.hint
  if leftOk && rightOk then 1 else if leftOk || rightOk then 0.5 else 0.1

/-- An identifier is active: the set of active ones holds it or is empty. -/
def isActive (active : List Int) (id : Int) : Bool := active.isEmpty || active.contains id

/-- Of the identifiers that a symbol declares, which are active. -/
def declared (s : Symbol) (staging : Staging) : List Bool :=
  [(s.stage, staging.stageIds), (s.process, staging.processIds), (s.phase, staging.phaseIds)].filterMap
    (fun p => p.1.map (isActive p.2))

/-- The share of the declared identifiers that are active; 1 when none is declared, 0 without staging. -/
def stageBinding (s : Symbol) (staging : Staging) : Binary64 :=
  if !staging.enabled then 0
  else
    let marks := declared s staging
    if marks.isEmpty then 1
    else Binary64.ofInt (marks.count true) / Binary64.ofInt marks.length

/-- The standard components of a symbol between two neighbours. -/
def componentsBetween (s : Symbol) (left right : Option Symbol) (staging : Staging) (grammar : Grammar) :
    Except Components.Fault Components := do
  let place ← positional s left right grammar
  Components.make? (lexical s grammar).roundSix place.roundSix (typeConsistency s left right).roundSix
    (stageBinding s staging).roundSix

/-- The standard components of a symbol at a position; its neighbours are those of the cell there. -/
def standard (s : Symbol) (p : Position) (grid : Grid) (config : Config) (grammar : Grammar) :
    Except Components.Fault Components :=
  let (left, right) := grid.beside p
  componentsBetween s (left.bind grid.symbolAt?) (right.bind grid.symbolAt?) config.staging grammar

end Scoring

/-- A way to score symbols, with a tag that tells it apart from other ways. -/
structure Scorer where
  tag : Nat
  score : Symbol → Position → Grid → Config → Grammar → Except Components.Fault Components

namespace Scorer

/-- The standard score. -/
def standard : Scorer := ⟨0, Scoring.standard⟩

end Scorer

end TokenForest
