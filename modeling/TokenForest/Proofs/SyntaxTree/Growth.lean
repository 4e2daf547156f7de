import Mathlib.Data.List.Forall2
import TokenForest.Proofs.Outcomes
import TokenForest.Proofs.SyntaxTree.Preorder

/-!
# Trees that grow

A tree grows when some of its nodes, those that are open, get more children behind those that they have. Every other node keeps its
children, grown or not, so a subtree can be found again in the grown tree; and what pruning leaves of a subtree is found in what it
leaves of the tree.
-/

namespace TokenForest

namespace SyntaxTree

variable {Open : NodeInfo → Prop} {t u v : SyntaxTree} {info : NodeInfo} {ts us : List SyntaxTree}

/-! ## Growing -/

/-- Lists whose members are related through those of a third list. -/
theorem forall₂_trans_of_mem {α : Type} {R : α → α → Prop} {xs ys zs : List α}
    (h : ∀ x ∈ xs, ∀ {y z : α}, R x y → R y z → R x z) (hxy : List.Forall₂ R xs ys) (hyz : List.Forall₂ R ys zs) :
    List.Forall₂ R xs zs := by
  induction hxy generalizing zs with
  | nil => exact hyz
  | cons hfirst _ ih =>
    cases hyz with
    | cons hnext hrest => exact .cons (h _ (by simp) hfirst hnext) (ih (fun x hx => h x (by simp [hx])) hrest)

/-- What is related to two lists one behind the other is two such lists. -/
theorem exists_of_forall₂_append {α β : Type} {R : α → β → Prop} {xs xs' : List α} {zs : List β}
    (h : List.Forall₂ R (xs ++ xs') zs) : ∃ ys ys', zs = ys ++ ys' ∧ List.Forall₂ R xs ys ∧ List.Forall₂ R xs' ys' := by
  have hfirst := List.forall₂_take xs.length h
  have hlast := List.forall₂_drop xs.length h
  rw [List.take_left] at hfirst
  rw [List.drop_left] at hlast
  exact ⟨_, _, (List.take_append_drop xs.length zs).symm, hfirst, hlast⟩

/-- The second tree is the first one with more children at the end of some open nodes. -/
inductive Grown (Open : NodeInfo → Prop) : SyntaxTree → SyntaxTree → Prop
  | grow {info : NodeInfo} {ts us : List SyntaxTree} (more : List SyntaxTree) (h : List.Forall₂ (Grown Open) ts us)
      (hmore : ¬Open info → more = []) : Grown Open (.node info ts) (.node info (us ++ more))

/-- A node whose children grow. -/
theorem grown_of_children (h : List.Forall₂ (Grown Open) ts us) : Grown Open (node info ts) (node info us) := by
  have hgrown : Grown Open (node info ts) (node info (us ++ [])) := .grow [] h fun _ => rfl
  rwa [List.append_nil] at hgrown

namespace Grown

theorem refl (Open : NodeInfo → Prop) (t : SyntaxTree) : Grown Open t t := by
  induction t with
  | node info ts ih => exact grown_of_children (List.forall₂_same.2 ih)

theorem refls (Open : NodeInfo → Prop) (ts : List SyntaxTree) : List.Forall₂ (Grown Open) ts ts :=
  List.forall₂_same.2 fun t _ => refl Open t

/-- A node that is not open keeps its children, grown. -/
theorem of_closed (hclosed : ¬Open info) (h : Grown Open (.node info ts) u) :
    ∃ us, u = .node info us ∧ List.Forall₂ (Grown Open) ts us := by
  cases h with
  | grow more h hmore =>
    rw [hmore hclosed, List.append_nil]
    exact ⟨_, rfl, h⟩

/-- A leaf that is not open stays as it is. -/
theorem of_leaf (hclosed : ¬Open info) (h : Grown Open (.node info []) u) : u = .node info [] := by
  obtain ⟨us, rfl, hus⟩ := h.of_closed hclosed
  rw [List.forall₂_nil_left_iff.1 hus]

theorem trans (h : Grown Open t u) (h' : Grown Open u v) : Grown Open t v := by
  induction t generalizing u v with
  | node info ts ih =>
    cases h with
    | @grow _ _ us more hts hmore =>
      cases h' with
      | @grow _ _ vs more' hus hmore' =>
        -- the children of the second tree grow, first those that were there and then those that came
        obtain ⟨kept, came, rfl, hkept, hcame⟩ := exists_of_forall₂_append hus
        rw [List.append_assoc]
        refine .grow _ (forall₂_trans_of_mem ih hts hkept) ?_
        intro hclosed
        rw [hmore hclosed, List.forall₂_nil_left_iff] at hcame
        rw [hcame, hmore' hclosed]
        rfl

/-- A subtree is found again in the grown tree. -/
theorem exists_subtree (h : Grown Open t u) : ∀ s ∈ t.subtrees, ∃ s' ∈ u.subtrees, Grown Open s s' := by
  induction t generalizing u with
  | node info ts ih =>
    intro s hs
    rw [subtrees_node] at hs
    rcases List.mem_cons.1 hs with rfl | hs
    · exact ⟨u, self_mem_subtrees u, h⟩
    · cases h with
      | @grow _ _ us more hts _ =>
        obtain ⟨c, hc, hs⟩ := List.mem_flatMap.1 hs
        obtain ⟨c', hc', hgrown⟩ := exists_of_forall₂_left hts hc
        obtain ⟨s', hs', hgrown'⟩ := ih c hc hgrown s hs
        refine ⟨s', ?_, hgrown'⟩
        rw [subtrees_node]
        exact List.mem_cons_of_mem _ (List.mem_flatMap.2 ⟨c', List.mem_append_left _ hc', hs'⟩)

end Grown

/-- An open node with more children. -/
theorem grown_of_append (h : Open info) (ts more : List SyntaxTree) : Grown Open (node info ts) (node info (ts ++ more)) :=
  .grow more (Grown.refls Open ts) fun hnot => absurd h hnot

/-! ## Pruning a subtree -/

/-- What pruning leaves of a subtree is a subtree of what it leaves of the tree, when only constructs have children. -/
theorem exists_prune?_of_mem_subtrees (hown : t.OwnedByConstructs) {s kept : SyntaxTree} (hs : s ∈ t.subtrees)
    (h : s.prune? = some kept) : ∃ r, t.prune? = some r ∧ kept ∈ r.subtrees := by
  induction t with
  | node info ts ih =>
    rw [subtrees_node] at hs
    rcases List.mem_cons.1 hs with rfl | hs
    · exact ⟨kept, h, self_mem_subtrees kept⟩
    · obtain ⟨c, hc, hs⟩ := List.mem_flatMap.1 hs
      obtain ⟨hparent, hlinked⟩ := linked_node.1 hown c hc
      obtain ⟨k, hk, hkept⟩ := ih c hc hlinked hs
      have hmem : k ∈ ts.filterMap prune? := List.mem_filterMap.2 ⟨c, hc, hk⟩
      have hkind : info.kind ≠ .terminal := by
        rw [hparent]
        simp
      refine ⟨_, by rw [prune?_node, if_neg hkind, if_neg (List.ne_nil_of_mem hmem)], ?_⟩
      rw [subtrees_node]
      exact List.mem_cons_of_mem _ (List.mem_flatMap.2 ⟨k, hmem, hkept⟩)

end SyntaxTree

end TokenForest
