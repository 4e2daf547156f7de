import TokenForest.Proofs.Forest.Classes
import TokenForest.Proofs.Outcomes

/-!
# The merged forest

Merging rewrites the nodes that can be reached and no others: a node keeps what it says except for its confidence, and its
children become their representatives. Heights stay as they are, so the merged forest is well-formed again.
-/

namespace TokenForest

namespace Forest

variable {f : Forest} {t : Binary64}

/-- The forest after merging its classes under a tolerance. -/
def quotient (f : Forest) (t : Binary64) : Forest := f.mergeClasses (f.classes t)

/-- A reported class passes its check: the node that represents it is one of its members. -/
theorem make?_of_reported {c : EquivalenceClass} (hc : c ∈ f.reported (f.classes t)) :
    EquivalenceClass.make? c.representative c.members c.confidence = .ok c := by
  unfold reported at hc
  rw [List.mem_mergeSort] at hc
  obtain ⟨cls, hcls, rfl⟩ := List.mem_map.1 hc
  have hrep := representative_mem (List.mem_of_mem_filter hcls)
  have hmember : (f.nameClass cls).representative ∈ (f.nameClass cls).members := by
    unfold nameClass
    rw [List.mem_mergeSort]
    exact List.mem_map_of_mem hrep
  unfold EquivalenceClass.make?
  rw [if_pos (List.contains_iff_mem.2 hmember)]

theorem checkClasses_reported (f : Forest) (t : Binary64) :
    checkClasses (f.reported (f.classes t)) = .ok (f.reported (f.classes t)) :=
  mapM_of_forall₂ (List.forall₂_same.2 fun _ hc => make?_of_reported hc)

/-- Merging under a tolerance that is one always succeeds. -/
theorem merge_eq (f : Forest) (ht : Config.isTolerance t = true) :
    f.merge t = .ok ⟨f.quotient t, f.reported (f.classes t), f.count, (f.quotient t).count⟩ := by
  unfold merge
  simp only [ht, checkClasses_reported]
  rfl

/-- A forest that is merged is merged under a tolerance. -/
theorem isTolerance_of_merge {m : Merged} (h : f.merge t = .ok m) : Config.isTolerance t = true := by
  cases ht : Config.isTolerance t with
  | true => rfl
  | false =>
    unfold merge at h
    rw [ht] at h
    cases h

/-! ## Helpers -/

theorem size_quotient (f : Forest) (t : Binary64) : (f.quotient t).nodes.size = f.nodes.size := by
  simp [quotient, mergeClasses]

theorem roots_quotient (f : Forest) (t : Binary64) : (f.quotient t).roots = f.roots.map (representative (f.classes t)) := rfl

theorem node_of_size_le {i : Nat} (h : f.nodes.size ≤ i) : f.node i = default := by
  simp [node, Array.getD, Nat.not_lt.2 h]

/-- The node that a merged forest has under a number. -/
theorem WellFormed.node_quotient (hf : f.WellFormed) (t : Binary64) (i : Nat) :
    (f.quotient t).node i = f.mergedNode (f.classes t) i (f.node i) := by
  rcases Nat.lt_or_ge i f.nodes.size with h | h
  · simp [quotient, mergeClasses, node, Array.getD, h]
  · have hi : i ∉ f.walk := fun hw => absurd (hf.lt_of_mem_walk hw) (by omega)
    rw [node_of_size_le (by rw [size_quotient]; exact h), node_of_size_le h, mergedNode, hf.class?_eq_none hi]

/-- A node that cannot be reached is left alone. -/
theorem WellFormed.node_quotient_of_not_mem (hf : f.WellFormed) {i : Nat} (hi : i ∉ f.walk) :
    (f.quotient t).node i = f.node i := by
  rw [hf.node_quotient, mergedNode, hf.class?_eq_none hi]

/-- A merged node says what it said before, with a confidence of its own. -/
theorem WellFormed.info_quotient (hf : f.WellFormed) (t : Binary64) (i : Nat) :
    ((f.quotient t).node i).info = { (f.node i).info with confidence := (f.quotient t).confidence i } := by
  rw [confidence, hf.node_quotient, mergedNode]
  split <;> rfl

theorem WellFormed.height_quotient (hf : f.WellFormed) (t : Binary64) (i : Nat) : (f.quotient t).height i = f.height i := by
  rw [height, hf.node_quotient, mergedNode]
  split <;> rfl

/-- The children of a node that can be reached become their representatives. -/
theorem WellFormed.children_quotient (hf : f.WellFormed) (t : Binary64) {i : Nat} (hi : i ∈ f.walk) :
    (f.quotient t).children i = (f.children i).map (representative (f.classes t)) := by
  obtain ⟨c, _, _, hclass⟩ := hf.exists_class (t := t) hi
  rw [children, hf.node_quotient, mergedNode, hclass]
  rfl

theorem WellFormed.representative_lt (hf : f.WellFormed) (t : Binary64) {i : Nat} (hi : i < f.nodes.size) :
    representative (f.classes t) i < f.nodes.size := by
  by_cases hw : i ∈ f.walk
  · exact hf.lt_of_mem_walk (hf.representative_spec t hw).1
  · rw [representative_eq_self (hf.class?_eq_none hw)]
    exact hi

/-! ## Merging keeps a forest well-formed -/

/-- Every node of a merged forest is above its children, which are in the table. -/
theorem WellFormed.quotient (hf : f.WellFormed) (t : Binary64) : (f.quotient t).WellFormed := by
  refine ⟨fun i hi => ?_, fun r hr => ?_⟩
  · rw [size_quotient] at hi ⊢
    obtain ⟨hin, hheight⟩ := hf.1 i hi
    have hheights : ∀ cs : List Nat, cs.map (f.quotient t).height = cs.map f.height := by
      intro cs
      exact List.map_congr_left (fun c _ => hf.height_quotient t c)
    rw [hheights, hf.height_quotient, hheight]
    by_cases hw : i ∈ f.walk
    · rw [hf.children_quotient t hw, List.map_map]
      refine ⟨fun c hc => ?_, ?_⟩
      · obtain ⟨d, hd, rfl⟩ := List.mem_map.1 hc
        exact hf.representative_lt t (hin d hd)
      · congr 1
        exact List.map_congr_left (fun c _ => (hf.height_representative t c).symm)
    · rw [children, hf.node_quotient_of_not_mem hw]
      exact ⟨hin, rfl⟩
  · rw [roots_quotient, List.mem_map] at hr
    obtain ⟨s, hs, rfl⟩ := hr
    rw [size_quotient]
    exact hf.representative_lt t (hf.2 s hs)

/-! ## A forest with shared nodes -/

/-- Two statements that read one name with different confidences; one of them shares a leaf with the other and stands twice
among the roots. -/
def sharedExample : Forest where
  nodes := #[
    ⟨⟨"a", .terminal, "x", .declare, 0.9, none, some ⟨"a", .terminal, "x", "name", .identifier, 1, none, none, none⟩⟩, [], 0⟩,
    ⟨⟨"b", .terminal, "x", .declare, 0.91, none, some ⟨"b", .terminal, "x", "name", .identifier, 1, none, none, none⟩⟩, [], 0⟩,
    ⟨⟨"c", .terminal, "x", .declare, 0.5, none, some ⟨"c", .terminal, "x", "name", .identifier, 1, none, none, none⟩⟩, [], 0⟩,
    ⟨⟨"d", .nonterminal, "row", .assign, 0.9, none, none⟩, [0, 1, 2], 1⟩,
    ⟨⟨"e", .nonterminal, "row", .assign, 0.9, none, none⟩, [1, 0, 2], 1⟩]
  roots := [3, 4, 3]

theorem sharedExample_spec : sharedExample.WellFormed ∧ sharedExample.Checked ∧ sharedExample.DistinctNames ∧
    sharedExample.LeavesSettled := by decide +kernel

theorem leavesFinite_sharedExample : sharedExample.LeavesFinite :=
  fun i hi hnil => Binary64.isFinite_of_inUnit (sharedExample_spec.2.2.2 i hi hnil).1

end Forest

end TokenForest
