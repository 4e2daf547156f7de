import TokenForest.Config.Weights
import TokenForest.Config

/-!
# Confidence

Four components between 0 and 1 and their weighted blend, the confidence `psi` of a symbol at a position.
-/

namespace TokenForest

/-- The four components of a confidence, each between 0 and 1. -/
structure Components where
  lexical : Binary64
  positional : Binary64
  typeConsistency : Binary64
  stageBinding : Binary64
  inRange : [lexical, positional, typeConsistency, stageBinding].all Binary64.inUnit = true
  deriving DecidableEq

namespace Components

/-- Why a symbol has no components: one lies outside the interval from 0 to 1, or a hint is in no table of priors. -/
inductive Fault where
  | outside (component : String) (value : Binary64)
  | noPriors (hint : String)
  deriving DecidableEq, Repr

/-- The message of a fault. -/
def Fault.message : Fault → String
  | outside component value => s!"{component} must be in [0.0, 1.0], got {value.text}"
  | noPriors hint => Text.quoted hint

/-- The first of some named values that lies outside the interval from 0 to 1. -/
def firstOutside (named : List (String × Binary64)) : Option Fault :=
  (named.find? (fun p => !p.2.inUnit)).map (fun p => .outside p.1 p.2)

/-- The components with these values, when all lie between 0 and 1. -/
def make? (lexical positional typeConsistency stageBinding : Binary64) : Except Fault Components :=
  if h : [lexical, positional, typeConsistency, stageBinding].all Binary64.inUnit = true then
    .ok ⟨lexical, positional, typeConsistency, stageBinding, h⟩
  else
    .error ((firstOutside [("lexical", lexical), ("positional", positional), ("type_consistency", typeConsistency),
      ("stage_binding", stageBinding)]).getD (.outside "lexical" lexical))

/-- The components by name. -/
def named (c : Components) : List (String × Binary64) :=
  [("lexical", c.lexical), ("positional", c.positional), ("type_consistency", c.typeConsistency),
    ("stage_binding", c.stageBinding)]

/-- The component with this name; zero for a name that is none. -/
def value (c : Components) (name : String) : Binary64 := (c.named.lookup name).getD 0

/-- Every component reaches its minimum, where one is set. -/
def reaches (c : Components) (minimums : List (String × Binary64)) : Bool :=
  minimums.all (fun m => !decide (c.value m.1 < m.2))

/-- The weighted sum of the components, held between 0 and 1 and rounded to six places. -/
def blend (c : Components) (w : Weights) : Binary64 :=
  (w.alpha * c.lexical + w.beta * c.positional + w.gamma * c.typeConsistency + w.delta * c.stageBinding).clampUnit.roundSix

/-- The blend under weights that are valid. -/
def combine (c : Components) (w : Weights) : Except Config.Fault Binary64 := do
  w.validate
  return c.blend w

/-! ## Bounds -/

/-- The components as a list, in the order of their weights. -/
def toList (c : Components) : List Binary64 := [c.lexical, c.positional, c.typeConsistency, c.stageBinding]

/-- No component is greater than the other one. -/
structure Below (c c' : Components) : Prop where
  lexical : c.lexical ≤ c'.lexical
  positional : c.positional ≤ c'.positional
  typeConsistency : c.typeConsistency ≤ c'.typeConsistency
  stageBinding : c.stageBinding ≤ c'.stageBinding

/-- The components that carry a weight other than zero. -/
def weighted (c : Components) (w : Weights) : List Binary64 :=
  ((w.toList.zip c.toList).filter (fun p => !p.1.sameValue 0)).map (·.2)

/-- The number is at most two millionths below the least and above the greatest of the components that carry a weight. -/
def SpansNearly (c : Components) (w : Weights) (x : Binary64) : Prop :=
  ∃ lo ∈ c.weighted w, ∃ hi ∈ c.weighted w, (∀ y ∈ c.weighted w, lo ≤ y ∧ y ≤ hi) ∧
    1000000 * lo.units ≤ 1000000 * x.units + 2 * Binary64.unitsPerOne ∧ 1000000 * x.units ≤ 1000000 * hi.units + 2 * Binary64.unitsPerOne

end Components

/-- A confidence with the components it is blended from. -/
structure Breakdown where
  components : Components
  psi : Binary64
  deriving DecidableEq

end TokenForest
