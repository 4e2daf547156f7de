import Mathlib.Data.List.Basic
import TokenForest.Proofs.SyntaxTree.Preorder

/-!
# Trees with erased symbols

Erasing parts of the symbols that the nodes of a tree wrap leaves its shape, and with it its size and what is pruned from it, as it is.
-/

namespace TokenForest

/-- What a node says after erasing its symbol. -/
def NodeInfo.erase (f : Symbol → Symbol) (info : NodeInfo) : NodeInfo := { info with symbol := info.symbol.map f }

namespace SyntaxTree

variable (f : Symbol → Symbol)

mutual

/-- A tree with the symbols of its nodes erased. -/
def erase : SyntaxTree → SyntaxTree
  | node info children => node (info.erase f) (eraseAll children)

/-- Some trees with the symbols of their nodes erased. -/
def eraseAll : List SyntaxTree → List SyntaxTree
  | [] => []
  | t :: rest => erase t :: eraseAll rest

end

theorem eraseAll_eq (ts : List SyntaxTree) : eraseAll f ts = ts.map (erase f) := by
  induction ts with
  | nil => rfl
  | cons t ts ih => rw [eraseAll, ih, List.map_cons]

@[simp] theorem erase_node (info : NodeInfo) (children : List SyntaxTree) :
    (node info children).erase f = node (info.erase f) (children.map (erase f)) := by
  rw [erase, eraseAll_eq]

@[simp] theorem info_erase (t : SyntaxTree) : (t.erase f).info = t.info.erase f := by
  cases t
  rw [erase_node]
  rfl

/-- A tree keeps its size. -/
theorem size_erase (t : SyntaxTree) : (t.erase f).size = t.size := by
  have hsizes : ∀ ts : List SyntaxTree, (∀ t ∈ ts, (t.erase f).size = t.size) → sizes (ts.map (erase f)) = sizes ts := by
    intro ts
    induction ts with
    | nil => intro _; rfl
    | cons t ts ih =>
      intro h
      rw [List.map_cons, sizes, sizes, h t (by simp), ih fun u hu => h u (by simp [hu])]
  induction t with
  | node info children ih => rw [erase_node, size, size, hsizes children ih]

/-- The same nodes are pruned from a tree. -/
theorem prune?_erase (t : SyntaxTree) : prune? (t.erase f) = (prune? t).map (erase f) := by
  induction t with
  | node info children ih =>
    have hall : pruneAll (children.map (erase f)) = (pruneAll children).map (erase f) := by
      rw [pruneAll_eq, pruneAll_eq, List.filterMap_map, List.map_filterMap]
      exact List.filterMap_congr ih
    rw [erase_node, prune?, prune?, hall]
    change (if info.kind = .terminal then _ else _) = _
    split
    · simp
    · cases pruneAll children with
      | nil => rfl
      | cons kept rest => simp [NodeInfo.erase, Function.comp_def]

theorem pruneAll_erase (ts : List SyntaxTree) : pruneAll (ts.map (erase f)) = (pruneAll ts).map (erase f) := by
  rw [pruneAll_eq, pruneAll_eq, List.filterMap_map, List.map_filterMap]
  exact List.filterMap_congr fun t _ => prune?_erase f t

end SyntaxTree

end TokenForest
