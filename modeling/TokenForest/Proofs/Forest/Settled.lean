import TokenForest.Forest.Equivalence
import TokenForest.Proofs.Forest.Classes

/-!
# Settled confidences

A confidence between 0 and 1 that rounding to six places leaves alone is settled. Where the confidences of the leaves are
settled, so are those that merging gives to nodes and classes, because each of them is one of the confidences below it.
-/

namespace TokenForest

namespace Binary64.Settled

theorem isFinite {x : Binary64} (h : x.Settled) : x.isFinite = true := isFinite_of_inUnit h.1

theorem ne_nan {x : Binary64} (h : x.Settled) : x ≠ nan := ne_nan_of_isFinite h.isFinite

end Binary64.Settled

namespace Forest

variable {f : Forest} {t : Binary64}

theorem Checked.children_eq_nil (h : f.Checked) {i : Nat} (hi : i ∈ f.walk) (hk : (f.node i).info.kind = .terminal) :
    f.children i = [] := by
  have hi := h i hi
  by_contra hne
  rw [checkNode] at hi
  split at hi
  · simp at hi
  · rw [if_pos ⟨hk, hne⟩] at hi
    simp at hi

/-! ## Members of a cluster -/

/-- A class with this node is a cluster of the node and its peers. -/
theorem WellFormed.exists_cluster_of_mem (hf : f.WellFormed) {c : MergeClass} (hc : c ∈ f.classes t) {i : Nat}
    (hi : i ∈ c.members) :
    ∃ k ∈ clusters t ((f.peersOf (f.classes t) i).map (f.member (f.classes t))), classOf k = some c := by
  obtain ⟨n, s, k, hk, hkc⟩ := hf.exists_cluster hc
  obtain ⟨hlevel, rfl⟩ := mem_peers.1 (mem_peers_of_mem_members hk hkc hi)
  obtain ⟨_, rfl⟩ := mem_level.1 hlevel
  exact ⟨k, hk, hkc⟩

variable {classes : List MergeClass} {nodes : List Nat} {k : List Member}

/-- The members of a cluster of nodes have settled confidences when all these nodes have. -/
theorem settled_of_mem_cluster (h : ∀ i ∈ nodes, (f.mergedConfidence classes i).Settled)
    (hk : k ∈ clusters t (nodes.map (f.member classes))) {m : Member} (hm : m ∈ k) : m.confidence.Settled := by
  obtain ⟨i, hi, rfl⟩ := exists_of_mem_cluster hk hm
  exact h i hi

theorem allFinite_of_settled (h : ∀ i ∈ nodes, (f.mergedConfidence classes i).Settled) :
    AllFinite (nodes.map (f.member classes)) := by
  intro m hm
  obtain ⟨i, hi, rfl⟩ := List.mem_map.1 hm
  exact (h i hi).isFinite

/-- A class over settled confidences has the confidence of the first member of its cluster. -/
theorem confidence_eq_head {c : MergeClass} (h : ∀ i ∈ nodes, (f.mergedConfidence classes i).Settled)
    (hk : k ∈ clusters t (nodes.map (f.member classes))) (hkc : classOf k = some c) :
    ∃ m ∈ k.head?, c.confidence = m.confidence := by
  obtain ⟨m, rest, hkm, _, _, hconf⟩ := classOf_eq_some hkc
  have hset : ∀ x ∈ k, x.confidence.Settled := fun x hx => settled_of_mem_cluster h hk hx
  have hfirst : SyntaxTree.least m.confidence (rest.map (·.confidence)) = m.confidence := by
    apply SyntaxTree.least_eq_first
    intro x hx
    obtain ⟨y, hy, rfl⟩ := List.mem_map.1 hx
    have hle := head_le_of_mem_cluster (allFinite_of_settled h) hk hkm hy
    exact (Binary64.not_lt (hset y (by simp [hkm, hy])).ne_nan (hset m (by simp [hkm])).ne_nan).2 hle
  refine ⟨m, by rw [hkm]; rfl, ?_⟩
  rw [hconf, hfirst]
  exact (hset m (by simp [hkm])).2

/-! ## All confidences -/

/-- The confidence of a class is that of one of its members, rounded to six places. -/
theorem exists_confidence_of_classOf {c : MergeClass} (hk : k ∈ clusters t (nodes.map (f.member classes)))
    (hkc : classOf k = some c) : ∃ i ∈ nodes, c.confidence = (f.mergedConfidence classes i).roundSix := by
  obtain ⟨m, rest, hkm, _, _, hconf⟩ := classOf_eq_some hkc
  have hleast := SyntaxTree.least_mem m.confidence (rest.map (·.confidence))
  rw [← List.map_cons (f := fun m : Member => m.confidence), ← hkm, List.mem_map] at hleast
  obtain ⟨x, hx, hxc⟩ := hleast
  obtain ⟨i, hi, rfl⟩ := exists_of_mem_cluster hk hx
  exact ⟨i, hi, by rw [hconf, ← hxc]; rfl⟩

/-- What holds of the confidences of the leaves, and of every rounding of a number it holds of, holds of the confidence of every
node that can be reached, once the classes below it are known. -/
theorem WellFormed.forall_mergedConfidence (hf : f.WellFormed) (hcheck : f.Checked) {P : Binary64 → Prop}
    (hround : ∀ x, P x → P x.roundSix) (hleaf : ∀ i ∈ f.walk, f.children i = [] → P (f.confidence i)) (t : Binary64)
    {i : Nat} (hi : i ∈ f.walk) : P (f.mergedConfidence (f.classes t) i) := by
  suffices h : ∀ n, ∀ i ∈ f.walk, f.height i = n → P (f.mergedConfidence (f.classes t) i) from h _ i hi rfl
  intro n
  -- the class of a child may hold nodes from anywhere on its level, so the induction is on heights and not on nodes
  induction n using Nat.strongRecOn with
  | ind n ih =>
    intro i hi hn
    have hchild : ∀ c ∈ f.children i, P (((class? (f.classes t) c).map (·.confidence)).getD (f.confidence c)) := by
      intro c hc
      obtain ⟨cls, hcls, hm, hclass⟩ := hf.exists_class (t := t) (hf.child_mem_walk hi hc)
      obtain ⟨k, hk, hkc⟩ := hf.exists_cluster_of_mem hcls hm
      obtain ⟨j, hj, hconf⟩ := exists_confidence_of_classOf hk hkc
      obtain ⟨hjw, hjc, _⟩ := mem_peersOf.1 hj
      have hlow := hf.height_child_lt hc
      rw [hclass, Option.map_some, Option.getD_some, hconf]
      exact hround _ (ih (f.height c) (by omega) j hjw hjc)
    rw [mergedConfidence]
    split
    · rename_i hk
      exact hleaf i hi (hcheck.children_eq_nil hi hk)
    · by_cases hnil : f.children i = []
      · rw [hnil]
        exact hleaf i hi hnil
      · obtain ⟨x, hx, hagg⟩ := SyntaxTree.exists_aggregate (f.confidence i) (mt List.map_eq_nil_iff.1 hnil)
        obtain ⟨c, hc, rfl⟩ := List.mem_map.1 hx
        rw [hagg]
        exact hround _ (hchild c hc)

/-- What holds of the confidences of the leaves and of every rounding holds of the confidence of every class. -/
theorem WellFormed.forall_class_confidence (hf : f.WellFormed) (hcheck : f.Checked) {P : Binary64 → Prop}
    (hround : ∀ x, P x → P x.roundSix) (hleaf : ∀ i ∈ f.walk, f.children i = [] → P (f.confidence i))
    {c : MergeClass} (hc : c ∈ f.classes t) : P c.confidence := by
  obtain ⟨k, hk, hkc⟩ := hf.exists_cluster_of_mem hc (representative_mem hc)
  obtain ⟨j, hj, hconf⟩ := exists_confidence_of_classOf hk hkc
  rw [hconf]
  exact hround _ (hf.forall_mergedConfidence hcheck hround hleaf t (mem_peersOf.1 hj).1)

/-- Every node that can be reached has a settled confidence once the classes below it are known. -/
theorem WellFormed.settled_mergedConfidence (hf : f.WellFormed) (hcheck : f.Checked) (hleaf : f.LeavesSettled) (t : Binary64)
    {i : Nat} (hi : i ∈ f.walk) : (f.mergedConfidence (f.classes t) i).Settled := by
  have hround : ∀ x : Binary64, x.Settled → x.roundSix.Settled := by
    intro x hx
    rw [hx.2]
    exact hx
  exact hf.forall_mergedConfidence hcheck hround hleaf t hi

/-- Every class has a settled confidence, that of the first member of its cluster. -/
theorem WellFormed.class_confidence (hf : f.WellFormed) (hcheck : f.Checked) (hleaf : f.LeavesSettled) {c : MergeClass}
    (hc : c ∈ f.classes t) {i : Nat} (hi : i ∈ c.members) :
    c.confidence.Settled ∧ ∃ k ∈ clusters t ((f.peersOf (f.classes t) i).map (f.member (f.classes t))),
      classOf k = some c ∧ ∃ m ∈ k.head?, c.confidence = m.confidence := by
  have hset : ∀ j ∈ f.peersOf (f.classes t) i, (f.mergedConfidence (f.classes t) j).Settled :=
    fun j hj => hf.settled_mergedConfidence hcheck hleaf t (mem_peersOf.1 hj).1
  obtain ⟨k, hk, hkc⟩ := hf.exists_cluster_of_mem hc hi
  obtain ⟨m, hm, hconf⟩ := confidence_eq_head hset hk hkc
  refine ⟨?_, k, hk, hkc, m, hm, hconf⟩
  rw [hconf]
  exact settled_of_mem_cluster hset hk (List.mem_of_mem_head? hm)

end Forest

end TokenForest
