import TokenForest.Assembly
import TokenForest.Forest

/-!
# Recorded and checked assemblies

The assembly of a forest with a record of every node that is made on the way, whether it ends in the forest, is left out, goes
with a statement that is left out, or is pruned since nothing stands below it. And the assembly in which every node is checked as it is
made, as it is when a batch runs.
-/

namespace TokenForest

namespace Assembly

/-- A computation that takes notes and records the nodes it makes. -/
abbrev Recording (α : Type) := StateT (List NodeInfo) Noting α

instance : Building Recording where
  note x := StateT.lift x
  make info := do
    modify fun made => made ++ [info]
    return info

/-- The forest of the admitted symbols of a grid, with all nodes that are made for it. -/
def Recorded.ofDecisions (decisions : List Decision) (grid : Grid) (grammar : Grammar) : Assembly × List NodeInfo :=
  let ((roots, made), notes) := ((gridRoots decisions grid grammar : Recording (List SyntaxTree)).run []).run .empty
  (⟨roots, notes⟩, made)

/-- A computation that takes notes and fails at a node that does not pass its check. -/
abbrev Checking (α : Type) := StateT Notes (Except Fault) α

instance : Building Checking where
  note x := fun n => .ok (x.run n)
  make info := fun n => (Forest.checkNode info []).map fun _ => (info, n)

/-- The forest of the admitted symbols of a grid, when all nodes that are made for it pass their checks. -/
def build (decisions : List Decision) (grid : Grid) (grammar : Grammar) : Except Fault Assembly := do
  let (roots, notes) ← (gridRoots decisions grid grammar : Checking (List SyntaxTree)).run .empty
  return ⟨roots, notes⟩

end Assembly

end TokenForest
