import TokenForest.Forest
import TokenForest.Proofs.SyntaxTree.Preorder

/-!
# Unfolding a forest

In a well-formed forest every child is lower than its parent, so a claim about a node may be proved from the claim about its
children, and the tree of a node is the node over the trees of its children. A forest made of trees unfolds to these trees.
-/

namespace TokenForest

namespace Forest

/-! ## Heights -/

theorem le_foldl_max (hs : List Nat) (n : Nat) : n ≤ hs.foldl max n ∧ ∀ h ∈ hs, h ≤ hs.foldl max n := by
  induction hs generalizing n with
  | nil => simp
  | cons a hs ih =>
    obtain ⟨h1, h2⟩ := ih (max n a)
    simp only [List.foldl_cons, List.mem_cons, forall_eq_or_imp]
    exact ⟨by omega, by omega, h2⟩

/-- The height over some heights is above each of them. -/
theorem lt_heightOver {hs : List Nat} {h : Nat} (hm : h ∈ hs) : h < heightOver hs := by
  cases hs with
  | nil => simp at hm
  | cons a hs =>
    have := (le_foldl_max (a :: hs) 0).2 h hm
    simp only [heightOver]
    omega

variable {f g : Forest}

instance (f : Forest) : Decidable f.WellFormed :=
  inferInstanceAs (Decidable ((∀ i < f.nodes.size, (∀ c ∈ f.children i, c < f.nodes.size) ∧
    f.height i = heightOver ((f.children i).map f.height)) ∧ ∀ r ∈ f.roots, r < f.nodes.size))

/-- A number outside the table names a node that owns nothing. -/
theorem children_of_size_le {i : Nat} (h : f.nodes.size ≤ i) : f.children i = [] := by
  simp [children, node, Array.getD, Nat.not_lt.2 h]
  rfl

theorem lt_size_of_mem_children {i c : Nat} (hc : c ∈ f.children i) : i < f.nodes.size := by
  rcases Nat.lt_or_ge i f.nodes.size with h | h
  · exact h
  · rw [children_of_size_le h] at hc
    simp at hc

namespace WellFormed

/-- Every child is in the table. -/
theorem child_lt (hf : f.WellFormed) {i c : Nat} (hc : c ∈ f.children i) : c < f.nodes.size :=
  (hf.1 i (lt_size_of_mem_children hc)).1 c hc

/-- Every child is lower than its parent. -/
theorem height_child_lt (hf : f.WellFormed) {i c : Nat} (hc : c ∈ f.children i) : f.height c < f.height i := by
  rw [(hf.1 i (lt_size_of_mem_children hc)).2]
  exact lt_heightOver (List.mem_map_of_mem hc)

/-- A node of height zero owns nothing. -/
theorem children_eq_nil (hf : f.WellFormed) {i : Nat} (h : f.height i = 0) : f.children i = [] := by
  apply List.eq_nil_iff_forall_not_mem.2
  intro c hc
  have := hf.height_child_lt hc
  omega

/-- A claim holds of every node when it holds of a node as soon as it holds of its children. -/
theorem induction (hf : f.WellFormed) {P : Nat → Prop} (step : ∀ i, (∀ c ∈ f.children i, P c) → P i) (i : Nat) : P i := by
  suffices h : ∀ n i, f.height i < n → P i from h _ i (Nat.lt_succ_self _)
  intro n
  induction n with
  | zero => intro i hi; omega
  | succ n ih =>
    intro i hi
    apply step
    intro c hc
    have := hf.height_child_lt hc
    exact ih c (by omega)

/-! ## Trees -/

/-- Unfolding deeper than the height of a node changes nothing. -/
theorem unfold_eq_unfold (hf : f.WellFormed) {d d' i : Nat} (h : f.height i ≤ d) (h' : f.height i ≤ d') :
    f.unfold d i = f.unfold d' i := by
  induction d generalizing d' i with
  | zero =>
    have hnil := hf.children_eq_nil (Nat.le_zero.1 h)
    cases d' <;> simp [unfold, hnil]
  | succ d ih =>
    cases d' with
    | zero =>
      have hnil := hf.children_eq_nil (Nat.le_zero.1 h')
      simp [unfold, hnil]
    | succ d' =>
      simp only [unfold]
      congr 1
      apply List.map_congr_left
      intro c hc
      have := hf.height_child_lt hc
      exact ih (by omega) (by omega)

/-- The tree of a node is the node over the trees of its children. -/
theorem tree_eq (hf : f.WellFormed) (i : Nat) : f.tree i = .node (f.node i).info ((f.children i).map f.tree) := by
  have h : f.tree i = f.unfold (f.height i + 1) i := hf.unfold_eq_unfold (Nat.le_refl _) (Nat.le_succ _)
  rw [h, unfold]
  congr 1
  apply List.map_congr_left
  intro c hc
  exact hf.unfold_eq_unfold (Nat.le_of_lt (hf.height_child_lt hc)) (Nat.le_refl _)

end WellFormed

/-! ## Nodes in pre-order -/

theorem map_info_below (f : Forest) (d i : Nat) :
    (f.below d i).map (fun j => (f.node j).info) = (f.unfold d i).infos := by
  induction d generalizing i with
  | zero => simp [below, unfold, SyntaxTree.infos_node]
  | succ d ih =>
    rw [below, unfold, SyntaxTree.infos_node, List.map_cons, List.map_flatMap, List.flatMap_map]
    simp only [ih]

/-- What the nodes met say is what the trees of the forest say. -/
theorem map_info_preorder (f : Forest) :
    f.preorder.map (fun j => (f.node j).info) = f.trees.flatMap SyntaxTree.infos := by
  rw [preorder, trees, List.map_flatMap, List.flatMap_map]
  simp only [map_info_below]
  rfl

/-! ## Forests made of trees -/

/-- The second table begins with the first one. -/
def Grows (f g : Forest) : Prop := f.nodes.size ≤ g.nodes.size ∧ ∀ i < f.nodes.size, g.node i = f.node i

namespace Grows

theorem refl (f : Forest) : Grows f f := ⟨Nat.le_refl _, fun _ _ => rfl⟩

theorem trans {h : Forest} (a : Grows f g) (b : Grows g h) : Grows f h := by
  refine ⟨Nat.le_trans a.1 b.1, fun i hi => ?_⟩
  rw [b.2 i (Nat.lt_of_lt_of_le hi a.1), a.2 i hi]

theorem height_eq (h : Grows f g) {i : Nat} (hi : i < f.nodes.size) : g.height i = f.height i := by
  rw [height, h.2 i hi, ← height]

/-- A node that was there before still unfolds to its tree. -/
theorem tree_eq (h : Grows f g) (hf : f.WellFormed) {i : Nat} (hi : i < f.nodes.size) : g.tree i = f.tree i := by
  suffices hu : ∀ d i, i < f.nodes.size → g.unfold d i = f.unfold d i by
    rw [tree, h.height_eq hi, hu _ i hi, ← tree]
  intro d
  induction d with
  | zero => intro i hi; rw [unfold, unfold, h.2 i hi]
  | succ d ih =>
    intro i hi
    have hc : g.children i = f.children i := by rw [children, h.2 i hi, ← children]
    rw [unfold, unfold, h.2 i hi, hc]
    congr 1
    apply List.map_congr_left
    intro c hc
    exact ih c (hf.child_lt hc)

end Grows

theorem node_push_size (f : Forest) (info : NodeInfo) (cs : List Nat) :
    (f.push info cs).node f.nodes.size = ⟨info, cs, heightOver (cs.map f.height)⟩ := by
  simp [node, push, Array.getD]

theorem grows_push (f : Forest) (info : NodeInfo) (cs : List Nat) : Grows f (f.push info cs) := by
  refine ⟨by simp [push], fun i hi => ?_⟩
  simp [node, push, Array.getD, hi, Nat.lt_succ_of_lt hi, Array.getElem_push_lt hi]

/-- A new node over nodes of the table keeps the forest well-formed. -/
theorem WellFormed.push (hf : f.WellFormed) (info : NodeInfo) {cs : List Nat} (hcs : ∀ c ∈ cs, c < f.nodes.size) :
    (f.push info cs).WellFormed := by
  have hgrow := grows_push f info cs
  have hsize : (f.push info cs).nodes.size = f.nodes.size + 1 := by simp [Forest.push]
  have hheights : ∀ ds : List Nat, (∀ c ∈ ds, c < f.nodes.size) →
      ds.map (f.push info cs).height = ds.map f.height := by
    intro ds hds
    apply List.map_congr_left
    exact fun c hc => hgrow.height_eq (hds c hc)
  refine ⟨fun i hi => ?_, fun r hr => ?_⟩
  · rw [hsize] at hi ⊢
    rcases Nat.lt_or_eq_of_le (Nat.le_of_lt_succ hi) with h | rfl
    · have hc : (f.push info cs).children i = f.children i := by rw [children, hgrow.2 i h, ← children]
      rw [hc, hgrow.height_eq h, hheights _ (hf.1 i h).1]
      exact ⟨fun c hc => Nat.lt_succ_of_lt ((hf.1 i h).1 c hc), (hf.1 i h).2⟩
    · have hc : (f.push info cs).children f.nodes.size = cs := by rw [children, node_push_size]
      rw [hc, hheights cs hcs, height, node_push_size]
      exact ⟨fun c hc => Nat.lt_succ_of_lt (hcs c hc), rfl⟩
  · rw [hsize]
    exact Nat.lt_succ_of_lt (hf.2 r hr)

/-- The new node unfolds to itself over the trees of its children. -/
theorem WellFormed.tree_push (hf : f.WellFormed) (info : NodeInfo) {cs : List Nat} (hcs : ∀ c ∈ cs, c < f.nodes.size) :
    (f.push info cs).tree f.nodes.size = .node info (cs.map f.tree) := by
  rw [(hf.push info hcs).tree_eq, node_push_size, children, node_push_size]
  congr 1
  apply List.map_congr_left
  exact fun c hc => (grows_push f info cs).tree_eq hf (hcs c hc)

/-- What adding trees to a forest does: the table grows, stays well-formed, and the new numbers unfold to the trees. -/
structure Adds (f : Forest) (ts : List SyntaxTree) (g : Forest) (numbers : List Nat) : Prop where
  grows : Grows f g
  wellFormed : g.WellFormed
  inTable : ∀ i ∈ numbers, i < g.nodes.size
  trees : numbers.map g.tree = ts

theorem Adds.nil (hf : f.WellFormed) : Adds f [] f [] := ⟨Grows.refl f, hf, by simp, rfl⟩

theorem Adds.cons {h : Forest} {t : SyntaxTree} {ts : List SyntaxTree} {i : Nat} {is : List Nat} (a : Adds f [t] g [i])
    (b : Adds g ts h is) : Adds f (t :: ts) h (i :: is) := by
  have hi := a.inTable i (by simp)
  refine ⟨a.grows.trans b.grows, b.wellFormed, ?_, ?_⟩
  · intro j hj
    rcases List.mem_cons.1 hj with rfl | hj
    · exact Nat.lt_of_lt_of_le hi b.grows.1
    · exact b.inTable j hj
  · have ht := a.trees
    rw [List.map_cons, b.trees, b.grows.tree_eq a.wellFormed hi]
    simp only [List.map_cons, List.map_nil, List.cons.injEq, and_true] at ht
    rw [ht]

theorem adds_addTrees {ts : List SyntaxTree} (h : ∀ t ∈ ts, ∀ f : Forest, f.WellFormed → Adds f [t] (f.addTree t).1 [(f.addTree t).2])
    (hf : f.WellFormed) : Adds f ts (f.addTrees ts).1 (f.addTrees ts).2 := by
  induction ts generalizing f with
  | nil =>
    rw [addTrees]
    exact Adds.nil hf
  | cons t ts ih =>
    have ha := h t (by simp) f hf
    have hb := ih (fun u hu => h u (by simp [hu])) ha.wellFormed
    rw [addTrees]
    exact ha.cons hb

theorem adds_addTree (t : SyntaxTree) (f : Forest) (hf : f.WellFormed) : Adds f [t] (f.addTree t).1 [(f.addTree t).2] := by
  induction t generalizing f with
  | node info children ih =>
    have ha := adds_addTrees (fun u hu f hf => ih u hu f hf) hf
    rw [addTree]
    refine ⟨ha.grows.trans (grows_push _ _ _), ha.wellFormed.push info ha.inTable, ?_, ?_⟩
    · simp [push]
    · rw [List.map_singleton, ha.wellFormed.tree_push info ha.inTable, ha.trees]

theorem wellFormed_empty : empty.WellFormed := ⟨by simp [empty], by simp [empty]⟩

/-- A forest made of trees is well-formed and unfolds to these trees. -/
theorem adds_ofTrees (ts : List SyntaxTree) : (ofTrees ts).WellFormed ∧ (ofTrees ts).trees = ts := by
  have h : Adds empty ts (empty.addTrees ts).1 (empty.addTrees ts).2 :=
    adds_addTrees (fun t _ f hf => adds_addTree t f hf) wellFormed_empty
  have hgrow : Grows (empty.addTrees ts).1 (ofTrees ts) := ⟨Nat.le_refl _, fun _ _ => rfl⟩
  refine ⟨⟨h.wellFormed.1, h.inTable⟩, ?_⟩
  calc (ofTrees ts).trees = (empty.addTrees ts).2.map (empty.addTrees ts).1.tree :=
        List.map_congr_left (fun i hi => hgrow.tree_eq h.wellFormed (h.inTable i hi))
    _ = ts := h.trees

end Forest

end TokenForest
