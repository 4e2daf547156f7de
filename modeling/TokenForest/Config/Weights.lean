import TokenForest.Binary64.Aggregate
import TokenForest.Config.Fault

/-!
# Weights of the confidence components

Four weights that sum to one. Without staging the stage weight has nothing to weigh; the other three are scaled up to
take its share.
-/

namespace TokenForest

/-- The weights of the lexical, positional, type-consistency and stage-binding components, in this order. -/
structure Weights where
  alpha : Binary64
  beta : Binary64
  gamma : Binary64
  delta : Binary64
  deriving DecidableEq, Repr

namespace Weights

/-- How far the sum of the weights may lie from one. -/
def sumTolerance : Binary64 := 1e-6

/-- The weights as a list. -/
def toList (w : Weights) : List Binary64 := [w.alpha, w.beta, w.gamma, w.delta]

/-- One weight is finite and not negative. -/
def checkWeight (name : String) (value : Binary64) : Except Config.Fault Unit :=
  if !value.isFinite then .error (.nonFinite name value)
  else if value < 0 then .error (.negativeWeight name value)
  else .ok ()

/-- All weights are finite and not negative, and their sum is one up to the tolerance. -/
def validate (w : Weights) : Except Config.Fault Unit := do
  checkWeight "alpha" w.alpha
  checkWeight "beta" w.beta
  checkWeight "gamma" w.gamma
  checkWeight "delta" w.delta
  let total := Binary64.compensatedSum w.toList
  if sumTolerance < Binary64.abs (total - 1) then .error (.weightSum total)

/-- The weights with these values, when they are valid. -/
def make? (alpha beta gamma delta : Binary64) : Except Config.Fault Weights := do
  let w : Weights := ⟨alpha, beta, gamma, delta⟩
  w.validate
  return w

/-- The weights of a configuration that states none. -/
def default : Weights := ⟨0.4, 0.3, 0.2, 0.1⟩

/-- The weights that are applied: without staging the stage weight is zero and the others keep their ratios. -/
def effective (w : Weights) (staged : Bool) : Except Config.Fault Weights := do
  w.validate
  if staged || w.delta.sameValue 0 then return w
  let remaining := w.alpha + w.beta + w.gamma
  if remaining ≤ sumTolerance then .error .stageWeightWithoutStaging
  make? (w.alpha / remaining) (w.beta / remaining) (w.gamma / remaining) 0

/-- The weights with negative zeros read as zero: weights of equal values get equal keys. -/
def key (w : Weights) : Weights :=
  ⟨w.alpha.dropZeroSign, w.beta.dropZeroSign, w.gamma.dropZeroSign, w.delta.dropZeroSign⟩

end Weights

end TokenForest
