import TokenForest.Binary64.Decimal
import TokenForest.Text.Quoted
import TokenForest.Vocabulary

/-!
# Faults of a configuration

Why a configuration is refused. A fault has a reason code, and a message in words where there is one.
-/

namespace TokenForest

namespace Config

/-- A place in a configuration that does not have the required form, and the kind of what is wrong there. -/
structure Detail where
  place : String
  kind : String
  deriving DecidableEq, Repr

/-- Why a configuration is refused. -/
inductive Fault where
  | nonFinite (weight : String) (value : Binary64)
  | negativeWeight (weight : String) (value : Binary64)
  | weightSum (total : Binary64)
  | stageWeightWithoutStaging
  | thetaRange (value : Binary64)
  | unknownIntent (intent : Intent)
  | thresholdRange (intent : Intent) (value : Binary64)
  | overrideNotStricter (intent : Intent) (value floor : Binary64)
  | unknownComponent (name : String)
  | minimumRange (name : String) (value : Binary64)
  | toleranceRange
  | mergeTolerance
  | maxWorkers
  | form (details : List Detail)
  | notAnObject (file : String)
  | notJson (file : String)
  deriving DecidableEq, Repr

namespace Fault

/-- The reason code. -/
def reason : Fault → String
  | nonFinite _ _ => "non_finite"
  | negativeWeight _ _ => "negative_weight"
  | weightSum _ => "weight_sum"
  | stageWeightWithoutStaging => "stage_weight_without_staging"
  | thetaRange _ => "theta_range"
  | unknownIntent _ => "unknown_intent"
  | thresholdRange _ _ => "theta_range"
  | overrideNotStricter _ _ _ => "override_not_stricter"
  | unknownComponent _ => "unknown_component"
  | minimumRange _ _ => "component_minimum_range"
  | toleranceRange => "tolerance_range"
  | mergeTolerance => "tolerance_range"
  | maxWorkers => "max_workers"
  | form _ => "schema"
  | notAnObject _ => "schema"
  | notJson _ => "json"

/-- One line for each place of the wrong form. -/
def detailLines (details : List Detail) : String :=
  String.intercalate "\n" (details.map (fun d => s!"{d.place}: {d.kind}"))

/-- What is wrong, in words. -/
def description : Fault → String
  | nonFinite weight value => s!"{weight}={value.text} must be finite"
  | negativeWeight weight value => s!"{weight}={value.text} must be >= 0"
  | weightSum total => s!"weights sum to {total.text}, expected 1.0"
  | stageWeightWithoutStaging => "all weight is on stage binding but staging is disabled"
  | thetaRange value => s!"theta_min={value.text} must be in [0, 1]"
  | unknownIntent intent => s!"threshold override for {Text.quoted intent.name}"
  | thresholdRange intent value => s!"{intent.name} threshold {value.text} must be in [0, 1]"
  | overrideNotStricter intent value floor =>
    s!"{intent.name} threshold {value.text} is below theta_min {floor.text}"
  | unknownComponent name => s!"minimum for {Text.quoted name}"
  | minimumRange name value => s!"{name} minimum {value.text} must be in [0, 1]"
  | toleranceRange => "equivalence_tolerance must be a finite value >= 0"
  | mergeTolerance => "equivalence tolerance must be a finite value >= 0"
  | maxWorkers => "max_workers must be >= 1"
  | form details => detailLines details
  | notAnObject file => s!"{file}: top-level JSON must be an object"
  | notJson file => s!"{file}: not a JSON document"

/-- The message: the reason code and what is wrong. -/
def message (fault : Fault) : String := s!"{fault.reason}: {fault.description}"

end Fault

end Config

end TokenForest
