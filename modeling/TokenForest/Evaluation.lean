import TokenForest.Confidence.Scoring
import TokenForest.Grid.Lookup
import TokenForest.MemoTable

/-!
# Evaluating confidences

The confidence of a symbol at a position, computed at most once for each key: the name of the symbol, its position, the
weights in effect, the staging, the grammar and the scorer.
-/

namespace TokenForest

/-- What confidences are evaluated against. -/
structure Context where
  grid : Grid
  config : Config
  grammar : Grammar
  scorer : Scorer

/-- The key of an evaluated confidence. Weights of equal values are equal in it, whatever the sign of their zeros. -/
structure EvaluationKey where
  symbolName : String
  position : Position
  weights : Weights
  staging : Staging
  grammar : Grammar
  scorer : Nat
  deriving DecidableEq

/-- The confidences evaluated so far. -/
abbrev Memo := MemoTable EvaluationKey Breakdown

/-- A computation that may fail and that uses the confidences evaluated so far. -/
abbrev Evaluating (α : Type) := ExceptT Fault (StateM Memo) α

namespace Context

/-- A grid with a configuration, a grammar and the standard score. -/
def standard (grid : Grid) (config : Config) (grammar : Grammar) : Context := ⟨grid, config, grammar, .standard⟩

/-- The confidence of a symbol at a position under the given weights. -/
def breakdownWith (c : Context) (weights : Weights) (s : Symbol) (p : Position) : Except Fault Breakdown := do
  let components ← (c.scorer.score s p c.grid c.config c.grammar).mapError .components
  let psi ← (components.combine weights).mapError .config
  return ⟨components, psi⟩

/-- The weights in effect. -/
def weights (c : Context) : Except Fault Weights :=
  (c.config.weights.effective c.config.staging.enabled).mapError .config

/-- The confidence of a symbol at a position. -/
def breakdown (c : Context) (s : Symbol) (p : Position) : Except Fault Breakdown := do
  let weights ← c.weights
  c.breakdownWith weights s p

/-- The key of the confidence of a symbol at a position. -/
def key (c : Context) (weights : Weights) (s : Symbol) (p : Position) : EvaluationKey where
  symbolName := s.id
  position := p
  weights := weights.key
  staging := c.config.staging
  grammar := c.grammar
  scorer := c.scorer.tag

/-- The confidence of a symbol at a position, from the table where it holds it. -/
def evaluate (c : Context) (s : Symbol) (p : Position) : Evaluating Breakdown := do
  let weights ← ExceptT.mk (pure c.weights)
  ExceptT.mk fun memo => memo.memoize (fun _ => false) (c.key weights s p) (fun _ => c.breakdownWith weights s p)

/-- The symbol in the cell of a position. -/
def symbolAt (c : Context) (p : Position) : Except Fault Symbol := c.grid.cell p

end Context

namespace Evaluating

/-- A computation that does not use the table. -/
def lift {α : Type} (result : Except Fault α) : Evaluating α := ExceptT.mk (pure result)

/-- Runs all the computations one after the other, also behind one that fails, and answers with the results or the first
failure. -/
def runAll {α : Type} (units : List (Evaluating α)) : Evaluating (List α) :=
  ExceptT.mk do
    let results ← units.mapM ExceptT.run
    return results.mapM id

/-- Started with the first table, the computation answers with the value and leaves the second table. -/
def Runs {α : Type} (x : Evaluating α) (memo : Memo) (a : α) (memo' : Memo) : Prop := x.run.run memo = (.ok a, memo')

/-- The computation answers with the value for some state of the table. -/
def Produces {α : Type} (x : Evaluating α) (a : α) : Prop := ∃ memo memo', x.run.run memo = (.ok a, memo')

end Evaluating

end TokenForest
