import TokenForest.Config.Weights
import TokenForest.Json

/-!
# Configuration of a batch

Weights, thresholds, minimums and tolerances. A configuration may hold values that make no sense; `validate` finds the
first of them.
-/

namespace TokenForest

/-- Whether the process axis is in use, and the identifiers that are active; an empty set makes every identifier
active. The sets are ascending lists without repetition. -/
structure Staging where
  enabled : Bool
  stageIds : List Int
  processIds : List Int
  phaseIds : List Int
  deriving DecidableEq, Repr

namespace Staging

/-- The set of some identifiers. -/
def idSet (ids : List Int) : List Int := ids.eraseDups.mergeSort (fun a b => decide (a ≤ b))

/-- Staging switched off. -/
def off : Staging := ⟨false, [], [], []⟩

end Staging

/-- The configuration of a batch. -/
structure Config where
  weights : Weights
  thetaMin : Binary64
  intentThresholds : List (Intent × Binary64)
  componentMinimums : List (String × Binary64)
  staging : Staging
  equivalenceTolerance : Binary64
  maxWorkers : Int
  deriving DecidableEq, Repr

namespace Config

/-- The configuration that states nothing. -/
def default : Config := ⟨.default, 0.8, [], [], .off, 0.05, 4⟩

/-- The names of the confidence components. -/
def componentNames : List String := ["lexical", "positional", "type_consistency", "stage_binding"]

/-- The pairs with `key` bound to `value`: in its old place when the key is there, at the end otherwise. -/
def bindKey {κ : Type} [DecidableEq κ] (pairs : List (κ × Binary64)) (key : κ) (value : Binary64) :
    List (κ × Binary64) :=
  if pairs.any (fun p => decide (p.1 = key)) then
    pairs.map (fun p => if p.1 = key then (key, value) else p)
  else pairs ++ [(key, value)]

/-- The map that some pairs make, a later pair of a key in place of an earlier one. -/
def mapOf {κ : Type} [DecidableEq κ] (pairs : List (κ × Binary64)) : List (κ × Binary64) :=
  pairs.foldl (fun done p => bindKey done p.1 p.2) []

/-! ## Checks -/

/-- A threshold is on a known intent, in range and not below the general threshold. -/
def checkThreshold (floor : Binary64) (entry : Intent × Binary64) : Except Fault Unit :=
  let (intent, theta) := entry
  if !intent.isKnown then .error (.unknownIntent intent)
  else if !theta.inUnit then .error (.thresholdRange intent theta)
  else if theta < floor then .error (.overrideNotStricter intent theta floor)
  else .ok ()

/-- A minimum is on a known component and in range. -/
def checkMinimum (entry : String × Binary64) : Except Fault Unit :=
  let (name, minimum) := entry
  if !componentNames.contains name then .error (.unknownComponent name)
  else if !minimum.inUnit then .error (.minimumRange name minimum)
  else .ok ()

/-- A tolerance of equivalence is finite and not negative. -/
def isTolerance (t : Binary64) : Bool := t.isFinite && decide (0 ≤ t)

/-- The first value that makes a batch meaningless. -/
def validate (c : Config) : Except Fault Unit := do
  c.weights.validate
  let _ ← c.weights.effective c.staging.enabled
  if !c.thetaMin.inUnit then .error (.thetaRange c.thetaMin)
  c.intentThresholds.forM (checkThreshold c.thetaMin)
  c.componentMinimums.forM checkMinimum
  if !isTolerance c.equivalenceTolerance then .error .toleranceRange
  if c.maxWorkers < 1 then .error .maxWorkers

/-! ## Thresholds -/

/-- The threshold for an intent: the general one, or its own where that is stricter. -/
def threshold (c : Config) (intent : Intent) : Binary64 :=
  Binary64.max c.thetaMin ((c.intentThresholds.lookup intent).getD c.thetaMin)

/-! ## Form -/

/-- The pairs in order of their names. -/
def sortPairs (pairs : List (String × Binary64)) : List (String × Binary64) :=
  pairs.mergeSort (fun a b => decide (a.1 ≤ b.1))

/-- The thresholds in order of the names of their intents. -/
def sortThresholds (pairs : List (Intent × Binary64)) : List (Intent × Binary64) :=
  pairs.mergeSort (fun a b => decide (a.1.name ≤ b.1.name))

/-- An object with a number for each name. -/
def pairsJson (pairs : List (String × Binary64)) : Json := .obj (pairs.map (fun p => (p.1, .float p.2)))

/-- The JSON object of a configuration. -/
def toJson (c : Config) : Json :=
  .obj [
    ("weights", .obj [
      ("alpha", .float c.weights.alpha),
      ("beta", .float c.weights.beta),
      ("gamma", .float c.weights.gamma),
      ("delta", .float c.weights.delta)]),
    ("theta_min", .float c.thetaMin),
    ("intent_thresholds", pairsJson ((sortThresholds c.intentThresholds).map (fun p => (p.1.name, p.2)))),
    ("component_minimums", pairsJson (sortPairs c.componentMinimums)),
    ("staging", .obj [
      ("enabled", .bool c.staging.enabled),
      ("stage_ids", .arr (c.staging.stageIds.map .int)),
      ("process_ids", .arr (c.staging.processIds.map .int)),
      ("phase_ids", .arr (c.staging.phaseIds.map .int))]),
    ("equivalence_tolerance", .float c.equivalenceTolerance),
    ("max_workers", .int c.maxWorkers)]

end Config

end TokenForest
