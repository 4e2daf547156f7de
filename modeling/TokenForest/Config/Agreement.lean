import TokenForest.Binary64.Exact
import TokenForest.Config

/-!
# Configurations compared

Configurations with the same fields, a configuration that asks for more than another one, and weights that keep the ratios of others.
-/

namespace TokenForest

namespace Staging

/-- The sets are written as they have to be: ascending, without repetition. -/
structure Ascending (s : Staging) : Prop where
  stageIds : s.stageIds.Pairwise (· < ·)
  processIds : s.processIds.Pairwise (· < ·)
  phaseIds : s.phaseIds.Pairwise (· < ·)

end Staging

namespace Config

/-- The same fields; the maps may come in another order. -/
structure Same (c d : Config) : Prop where
  weights : c.weights = d.weights
  thetaMin : c.thetaMin = d.thetaMin
  intentThresholds : c.intentThresholds.Perm d.intentThresholds
  componentMinimums : c.componentMinimums.Perm d.componentMinimums
  staging : c.staging = d.staging
  equivalenceTolerance : c.equivalenceTolerance = d.equivalenceTolerance
  maxWorkers : c.maxWorkers = d.maxWorkers

/-- The configuration with its maps in order. -/
def sorted (c : Config) : Config :=
  { c with intentThresholds := sortThresholds c.intentThresholds, componentMinimums := sortPairs c.componentMinimums }

/-- The configuration weighs as another one and asks for at least as much. A minimum that is not stated counts as zero. -/
structure Tightens (strict config : Config) : Prop where
  weights : strict.weights = config.weights
  staging : strict.staging = config.staging
  thresholds : ∀ intent ∈ Intent.all, config.threshold intent ≤ strict.threshold intent
  minimums : ∀ m ∈ config.componentMinimums, m.2 ≤ (strict.componentMinimums.lookup m.1).getD 0

end Config

namespace Weights

/-- The three weights other than that of the stage are the stated ones, or each of them over the same number, and keep their ratios. -/
structure KeepsRatios (w e : Weights) : Prop where
  scaled : e.alpha = w.alpha ∧ e.beta = w.beta ∧ e.gamma = w.gamma ∨ ∃ r : Binary64, r.isFinite = true ∧ 0 < r ∧
    e.alpha = w.alpha / r ∧ e.beta = w.beta / r ∧ e.gamma = w.gamma / r
  alphaBeta : Binary64.InRatio w.alpha w.beta e.alpha e.beta
  alphaGamma : Binary64.InRatio w.alpha w.gamma e.alpha e.gamma
  betaGamma : Binary64.InRatio w.beta w.gamma e.beta e.gamma

end Weights

end TokenForest
