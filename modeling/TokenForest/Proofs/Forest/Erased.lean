import TokenForest.Forest.Merge
import TokenForest.Proofs.Erasure
import TokenForest.Proofs.SyntaxTree.Erased

/-!
# Forests with erased symbols

Of the symbol that a node wraps, merging reads the lexeme and the tag. So erasing other parts of the symbols of a forest leaves its
classes as they are, and the merged forest is the erased one.
-/

namespace TokenForest

/-- A node of a forest with its symbol erased. -/
def Node.erase (f : Symbol → Symbol) (n : Node) : Node := { n with info := n.info.erase f }

namespace Forest

/-- A forest with the symbols of its nodes erased. -/
def erase (f : Symbol → Symbol) (g : Forest) : Forest := { g with nodes := g.nodes.map (Node.erase f) }

/-- A merged forest with the symbols of its nodes erased. -/
def Merged.erase (f : Symbol → Symbol) (m : Merged) : Merged := { m with forest := m.forest.erase f }

variable (f : Symbol → Symbol) (g : Forest)

/-! ## Nodes -/

@[simp] theorem node_erase (i : Nat) : (g.erase f).node i = (g.node i).erase f := by
  unfold node erase
  rw [Array.getD_eq_getD_getElem?, Array.getD_eq_getD_getElem?, Array.getElem?_map]
  cases g.nodes[i]? <;> rfl

@[simp] theorem children_erase (i : Nat) : (g.erase f).children i = g.children i := by
  rw [children, node_erase]
  rfl

@[simp] theorem height_erase : (g.erase f).height = g.height := by
  funext i
  rw [height, node_erase]
  rfl

@[simp] theorem confidence_erase : (g.erase f).confidence = g.confidence := by
  funext i
  rw [confidence, node_erase]
  rfl

/-! ## Making forests -/

theorem push_erase (info : NodeInfo) (children : List Nat) :
    (g.erase f).push (info.erase f) children = (g.push info children).erase f := by
  unfold push
  rw [height_erase]
  simp [erase, Node.erase]

/-- Trees are added alike when each of them is: the step of the induction on a tree below. -/
theorem addTrees_erase_of {ts : List SyntaxTree}
    (h : ∀ t ∈ ts, ∀ g : Forest, (g.erase f).addTree (t.erase f) = ((g.addTree t).1.erase f, (g.addTree t).2)) :
    (g.erase f).addTrees (ts.map (SyntaxTree.erase f)) = ((g.addTrees ts).1.erase f, (g.addTrees ts).2) := by
  induction ts generalizing g with
  | nil => rfl
  | cons t ts ih =>
    rw [List.map_cons, addTrees, addTrees, h t (by simp) g]
    simp only
    rw [ih _ fun u hu => h u (by simp [hu])]

theorem addTree_erase (t : SyntaxTree) : (g.erase f).addTree (t.erase f) = ((g.addTree t).1.erase f, (g.addTree t).2) := by
  induction t generalizing g with
  | node info children ih =>
    rw [SyntaxTree.erase_node, addTree, addTree, addTrees_erase_of f g fun t ht g => ih t ht g]
    simp only [push_erase]
    simp [erase]

/-- Erased trees make the erased forest. -/
theorem ofTrees_erase (ts : List SyntaxTree) : ofTrees (ts.map (SyntaxTree.erase f)) = (ofTrees ts).erase f := by
  have h : (empty.erase f).addTrees (ts.map (SyntaxTree.erase f)) = ((empty.addTrees ts).1.erase f, (empty.addTrees ts).2) :=
    addTrees_erase_of f empty fun t _ g => addTree_erase f g t
  have hempty : empty.erase f = empty := by simp [erase, empty]
  rw [hempty] at h
  unfold ofTrees
  rw [h]
  rfl

/-! ## Views -/

theorem unfold_erase (depth i : Nat) : (g.erase f).unfold depth i = (g.unfold depth i).erase f := by
  induction depth generalizing i with
  | zero =>
    rw [unfold, unfold, node_erase, SyntaxTree.erase_node]
    rfl
  | succ depth ih =>
    rw [unfold, unfold, node_erase, SyntaxTree.erase_node, children_erase, List.map_map]
    exact congrArg _ (List.map_congr_left fun c _ => ih c)

theorem tree_erase (i : Nat) : (g.erase f).tree i = (g.tree i).erase f := by
  rw [tree, tree, height_erase, unfold_erase]

theorem trees_erase : (g.erase f).trees = g.trees.map (SyntaxTree.erase f) := by
  unfold trees
  rw [List.map_map]
  exact List.map_congr_left fun r _ => tree_erase f g r

theorem visit_erase (depth : Nat) : (g.erase f).visit depth = g.visit depth := by
  induction depth with
  | zero => rfl
  | succ depth ih =>
    funext seen i
    rw [visit, visit, children_erase, ih]

theorem walk_erase : (g.erase f).walk = g.walk := by
  unfold walk
  simp only [height_erase, visit_erase]
  rfl

theorem count_erase : (g.erase f).count = g.count := by
  rw [count, count, walk_erase]

theorem levels_erase : (g.erase f).levels = g.levels := by
  unfold levels
  simp only [walk_erase, height_erase]

/-! ## Classes -/

theorem rank_erase (i : Nat) : (g.erase f).rank i = g.rank i := by
  unfold rank
  rw [node_erase, tree_erase, SyntaxTree.size_erase]
  rfl

theorem mergedConfidence_erase (classes : List MergeClass) (i : Nat) :
    (g.erase f).mergedConfidence classes i = g.mergedConfidence classes i := by
  unfold mergedConfidence
  rw [node_erase, confidence_erase, children_erase]
  rfl

theorem member_erase (classes : List MergeClass) (i : Nat) : (g.erase f).member classes i = g.member classes i := by
  rw [member, member, mergedConfidence_erase, rank_erase]

theorem mergeClasses_erase (classes : List MergeClass) : (g.erase f).mergeClasses classes = (g.mergeClasses classes).erase f := by
  have hnode : ∀ i n, (g.erase f).mergedNode classes i (n.erase f) = (g.mergedNode classes i n).erase f := by
    intro i n
    unfold mergedNode
    rw [mergedConfidence_erase]
    cases class? classes i <;> rfl
  unfold mergeClasses erase
  congr 1
  apply Array.ext_getElem?
  intro i
  simp only [Array.getElem?_mapIdx, Array.getElem?_map, Option.map_map]
  congr 1
  funext n
  exact hnode i n

theorem reported_erase (classes : List MergeClass) : (g.erase f).reported classes = g.reported classes := by
  have hname : (g.erase f).nameClass = g.nameClass := by
    funext c
    simp only [nameClass, node_erase]
    rfl
  unfold reported
  rw [hname]

variable {staging : Staging} (e : Erasure staging)

theorem signature_erase (classes : List MergeClass) (i : Nat) : (g.erase e.erase).signature classes i = g.signature classes i := by
  have hlexical : ((g.node i).info.erase e.erase).lexical = (g.node i).info.lexical := by
    unfold NodeInfo.lexical NodeInfo.erase
    cases (g.node i).info.symbol <;> simp [e.lexeme, e.typeTag]
  unfold signature
  simp only [node_erase, children_erase, Node.erase, hlexical]
  rfl

/-- The classes of a forest do not show what is erased. -/
theorem classes_erase (tolerance : Binary64) : (g.erase e.erase).classes tolerance = g.classes tolerance := by
  have hlevel : (g.erase e.erase).levelClasses tolerance = g.levelClasses tolerance := by
    funext classes level
    simp only [levelClasses, signature_erase, member_erase]
  unfold classes
  rw [levels_erase, hlevel]

/-- Merging an erased forest gives the erased merged forest. -/
theorem merge_erase (tolerance : Binary64) : (g.erase e.erase).merge tolerance = (g.merge tolerance).map (Merged.erase e.erase) := by
  unfold merge
  simp only [classes_erase, mergeClasses_erase, reported_erase, count_erase]
  cases Config.isTolerance tolerance with
  | true => cases checkClasses (g.reported (g.classes tolerance)) <;> rfl
  | false => rfl

end Forest

end TokenForest
