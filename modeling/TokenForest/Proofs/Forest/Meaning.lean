import TokenForest.Proofs.Forest.Merged

/-!
# Merging keeps the meaning of a forest

What a tree means is what it says without the names, places and confidences of its nodes. A node is replaced by a node with the
same signature only, and the children of the two have the same representatives, so by induction from the leaves up every tree
of a merged forest means what it meant before.
-/

namespace TokenForest

namespace SyntaxTree

theorem meanings_eq (ts : List SyntaxTree) : meanings ts = ts.map meaning := by
  induction ts with
  | nil => rfl
  | cons t ts ih => rw [meanings, ih, List.map_cons]

theorem meaning_node (info : NodeInfo) (ts : List SyntaxTree) :
    (node info ts).meaning = .node info.kind info.label info.intent info.lexical (ts.map meaning) := by
  rw [meaning, meanings_eq]

end SyntaxTree

namespace Forest

variable {f : Forest} {t : Binary64}

/-- The representative of a node means in the merged forest what the node meant before. -/
theorem WellFormed.meaning_representative (hf : f.WellFormed) (t : Binary64) {i : Nat} (hi : i ∈ f.walk) :
    ((f.quotient t).tree (representative (f.classes t) i)).meaning = (f.tree i).meaning := by
  revert hi
  induction i using hf.induction with
  | step i ih =>
    intro hi
    obtain ⟨hrep, hsign⟩ := hf.representative_spec t hi
    obtain ⟨hkind, hlabel, hintent, hlexical, hchildren⟩ := Signature.mk.inj hsign
    rw [(hf.quotient t).tree_eq, hf.tree_eq, SyntaxTree.meaning_node, SyntaxTree.meaning_node, hf.info_quotient,
      hf.children_quotient t hrep, hchildren, List.map_map, List.map_map, List.map_map]
    congr 1
    exact List.map_congr_left (fun c hc => ih c hc (hf.child_mem_walk hi hc))

/-- Merging a forest without cycles succeeds under every tolerance, and each root of the result unfolds to a tree of the same
meaning as the root in its place before. -/
theorem merge_preserves_meaning (hf : f.WellFormed) (ht : Config.isTolerance t = true) :
    ∃ m, f.merge t = .ok m ∧ m.forest.WellFormed ∧ m.forest.roots.length = f.roots.length ∧
      m.forest.trees.map SyntaxTree.meaning = f.trees.map SyntaxTree.meaning := by
  refine ⟨_, f.merge_eq ht, hf.quotient t, by rw [roots_quotient, List.length_map], ?_⟩
  change (f.quotient t).trees.map _ = _
  rw [trees, trees, roots_quotient, List.map_map, List.map_map, List.map_map]
  exact List.map_congr_left (fun r hr => hf.meaning_representative t (hf.root_mem_walk hr))

/-- The trees of the forest with shared nodes keep their meaning when its statements are merged. -/
theorem merge_preserves_meaning_shared : ∃ m, sharedExample.merge 0.05 = .ok m ∧ m.forest.WellFormed ∧
    m.forest.roots.length = 3 ∧ m.forest.trees.map SyntaxTree.meaning = sharedExample.trees.map SyntaxTree.meaning :=
  merge_preserves_meaning (f := sharedExample) sharedExample_spec.1 (isTolerance_of_inUnit (Binary64.inUnit_ofScientific (by decide)))

end Forest

end TokenForest
