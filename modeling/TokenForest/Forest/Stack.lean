import Mathlib.Algebra.GroupWithZero.Nat
import TokenForest.Forest

/-!
# Walking with a stack

The walk of a forest as a loop. The nodes that have been met stand on a stack, a node as often as it was met. Each round takes the one on
top: it is dropped when it is listed already, and otherwise it is listed and its children are put onto the stack, the first one on top.
-/

namespace TokenForest

namespace Forest

/-- The nodes listed so far, and the stack of nodes that have been met, its top in front. -/
structure Stacked where
  listed : List Nat
  stack : List Nat
  deriving DecidableEq, Repr

/-- The loop begins with the roots on the stack, the first one on top. -/
def stacked (f : Forest) : Stacked := ⟨[], f.roots⟩

/-- One round of the loop; nothing is done once the stack is empty. -/
def round (f : Forest) : Stacked → Stacked
  | ⟨listed, []⟩ => ⟨listed, []⟩
  | ⟨listed, i :: rest⟩ => if listed.contains i then ⟨listed, rest⟩ else ⟨listed ++ [i], f.children i ++ rest⟩

/-- How many rounds it takes to empty a stack over these nodes while the listed ones become more: one for each node that stands on it, and
one for each child of a node that is newly listed. -/
def rounds (f : Forest) (stack new : List Nat) : Nat := stack.length + (new.map (fun i => (f.children i).length)).sum

end Forest

end TokenForest
