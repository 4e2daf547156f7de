import TokenForest.Fault
import TokenForest.SyntaxTree

/-!
# Forests with shared nodes

A forest is a table of nodes that name their children by number, and a list of roots. A node may have several parents and
may be repeated among the roots; what it stands for is the tree it unfolds to. Every node knows its height above the
leaves, which bounds every walk down from it.
-/

namespace TokenForest

/-- A node of a forest: what it says, the numbers of its children, and its height above the leaves. -/
structure Node where
  info : NodeInfo
  children : List Nat
  height : Nat
  deriving DecidableEq, Repr

instance : Inhabited Node := ⟨⟨default, [], 0⟩⟩

/-- A table of nodes and the numbers of the roots. -/
structure Forest where
  nodes : Array Node
  roots : List Nat
  deriving DecidableEq, Repr

namespace Forest

/-- The empty forest. -/
def empty : Forest := ⟨#[], []⟩

/-- The node with this number. -/
def node (f : Forest) (i : Nat) : Node := f.nodes.getD i default

/-- The numbers of the children of a node. -/
def children (f : Forest) (i : Nat) : List Nat := (f.node i).children

/-- The height of a node above the leaves. -/
def height (f : Forest) (i : Nat) : Nat := (f.node i).height

/-- The confidence of a node. -/
def confidence (f : Forest) (i : Nat) : Binary64 := (f.node i).info.confidence

/-- The height of a node over children of these heights. -/
def heightOver : List Nat → Nat
  | [] => 0
  | heights => heights.foldl max 0 + 1

/-- All children exist, and every height is that over the heights of the children: the forest has no cycle. -/
def WellFormed (f : Forest) : Prop :=
  (∀ i < f.nodes.size, (∀ c ∈ f.children i, c < f.nodes.size) ∧ f.height i = heightOver ((f.children i).map f.height))
    ∧ ∀ r ∈ f.roots, r < f.nodes.size

/-! ## Making forests -/

/-- The forest with one more node, whose number is the old size of the table. -/
def push (f : Forest) (info : NodeInfo) (children : List Nat) : Forest :=
  { f with nodes := f.nodes.push ⟨info, children, heightOver (children.map f.height)⟩ }

mutual

/-- The forest with the nodes of a tree, and the number of its root. -/
def addTree (f : Forest) : SyntaxTree → Forest × Nat
  | .node info children =>
    let (g, numbers) := addTrees f children
    (g.push info numbers, g.nodes.size)

/-- The forest with the nodes of some trees, and the numbers of their roots. -/
def addTrees (f : Forest) : List SyntaxTree → Forest × List Nat
  | [] => (f, [])
  | t :: rest =>
    let (g, number) := addTree f t
    let (h, numbers) := addTrees g rest
    (h, number :: numbers)

end

/-- The forest of some trees, without sharing. -/
def ofTrees (trees : List SyntaxTree) : Forest :=
  let (f, roots) := addTrees empty trees
  { f with roots }

/-- A node made by hand: a terminal wraps a symbol and owns nothing. -/
def checkNode (info : NodeInfo) (children : List Nat) : Except Fault Unit :=
  if info.kind = .terminal ∧ info.symbol.isNone then .error .terminalWithoutSymbol
  else if info.kind = .terminal ∧ children ≠ [] then .error .terminalWithChildren
  else .ok ()

/-! ## Views -/

/-- The tree below a node, down to a depth. -/
def unfold (f : Forest) : Nat → Nat → SyntaxTree
  | 0, i => .node (f.node i).info []
  | depth + 1, i => .node (f.node i).info ((f.children i).map (unfold f depth))

/-- The tree that a node unfolds to. -/
def tree (f : Forest) (i : Nat) : SyntaxTree := f.unfold (f.height i) i

/-- The trees that the roots unfold to. -/
def trees (f : Forest) : List SyntaxTree := f.roots.map f.tree

/-- Walks down from a node in pre-order, skipping nodes already seen, and adds the new ones; the first number bounds the
depth of the walk. -/
def visit (f : Forest) : Nat → List Nat → Nat → List Nat
  | 0, seen, i => if seen.contains i then seen else seen ++ [i]
  | depth + 1, seen, i =>
    if seen.contains i then seen else (f.children i).foldl (visit f depth) (seen ++ [i])

/-- The nodes below the roots, each once, in pre-order of their first occurrence. -/
def walk (f : Forest) : List Nat := f.roots.foldl (fun seen r => f.visit (f.height r) seen r) []

/-- The number of different nodes below the roots. -/
def count (f : Forest) : Nat := f.walk.length

/-- For each node of the walk the places of its children in the walk: which nodes are one and the same. -/
def identity (f : Forest) : List (List Nat) :=
  let walked := f.walk
  walked.map (fun i => (f.children i).map walked.idxOf)

/-! ## Confidences -/

/-- The confidence that a node gets from its children; a terminal and a node without children keep their own. -/
def aggregated (f : Forest) (i : Nat) : Binary64 :=
  if (f.node i).info.kind = .terminal then f.confidence i
  else SyntaxTree.aggregate (f.confidence i) ((f.children i).map f.confidence)

/-- The forest with another confidence for a node. -/
def setConfidence (f : Forest) (i : Nat) (x : Binary64) : Forest :=
  { f with nodes := f.nodes.modify i (fun n => { n with info := { n.info with confidence := x } }) }

/-- The forest with the confidence of a node computed anew from its children. -/
def recompute (f : Forest) (i : Nat) : Forest := f.setConfidence i (f.aggregated i)

/-! ## Ways to the nodes -/

/-- A node is a root, or a child of a node that can be reached. -/
inductive Reachable (f : Forest) : Nat → Prop where
  | root {r : Nat} (h : r ∈ f.roots) : Reachable f r
  | child {i c : Nat} (h : Reachable f i) (hc : c ∈ f.children i) : Reachable f c

/-- The nodes that a walk down from a node to a depth meets: a node once for each way to it. -/
def below (f : Forest) : Nat → Nat → List Nat
  | 0, i => [i]
  | depth + 1, i => i :: (f.children i).flatMap (below f depth)

/-- The nodes that a walk of the unfolded roots meets, in pre-order: a node once for each path from a root to it. -/
def preorder (f : Forest) : List Nat := f.roots.flatMap (fun r => f.below (f.height r) r)

/-- The terminals of a forest for a position, one entry for each path from a root. -/
def terminalsAt (f : Forest) (p : Position) : List Nat :=
  f.preorder.filter (fun i => decide ((f.node i).info.kind = .terminal) && decide ((f.node i).info.position = some p))

/-- The number of leaves below the roots. -/
def leafCount (f : Forest) : Nat := f.walk.countP (fun i => decide (f.children i = []))

end Forest

end TokenForest
