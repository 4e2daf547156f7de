import TokenForest.Proofs.Binary64.Decimals
import TokenForest.Proofs.Forest.Census

/-!
# What merging costs

A node is represented by one whose confidence is not above its own. The least confidence of some children lies no further above the
least confidence of their representatives than one of the children lies above its own representative, so by induction from the leaves
up every node loses at most what a leaf loses, and that is at most what the tolerance allows, at every height.
-/

namespace TokenForest

namespace SyntaxTree

/-- Settled confidences are aggregated to the least of them. -/
theorem aggregate_of_settled (own : Binary64) {xs : List Binary64} (hne : xs ≠ []) (hset : ∀ x ∈ xs, x.Settled) :
    aggregate own xs ∈ xs ∧ ∀ x ∈ xs, aggregate own xs ≤ x := by
  cases xs with
  | nil => exact absurd rfl hne
  | cons first rest =>
    have hmem := least_mem first rest
    have hround : aggregate own (first :: rest) = least first rest := (hset _ hmem).2
    rw [hround]
    exact ⟨hmem, least_le fun x hx => (hset x hx).ne_nan⟩

end SyntaxTree

namespace Forest

variable {f : Forest} {t : Binary64}

/-! ## The rule of inner nodes -/

/-- The inner nodes of a merged forest have the least of the confidences of their children, whatever they had before. -/
theorem WellFormed.minOfChildren_quotient (hf : f.WellFormed) (hcheck : f.Checked) (hleaf : f.LeavesSettled) (t : Binary64) :
    (f.quotient t).MinOfChildren := by
  intro i hi hne
  have hw := hf.mem_walk_of_mem_walk_quotient hi
  have hk : ((f.quotient t).node i).info.kind ≠ .terminal := by
    rw [hf.info_quotient]
    intro hk
    rw [hf.children_quotient t hw, hcheck.children_eq_nil hw hk] at hne
    exact hne rfl
  have haggregated := hf.aggregated_quotient hcheck hleaf hi
  rw [aggregated, if_neg hk] at haggregated
  have hset : ∀ x ∈ ((f.quotient t).children i).map (f.quotient t).confidence, x.Settled := by
    intro x hx
    obtain ⟨c, hc, rfl⟩ := List.mem_map.1 hx
    exact hf.settled_quotient hcheck hleaf ((hf.quotient t).child_mem_walk hi hc)
  obtain ⟨hmem, hle⟩ := SyntaxTree.aggregate_of_settled ((f.quotient t).confidence i) (mt List.map_eq_nil_iff.1 hne) hset
  rw [haggregated] at hmem hle
  obtain ⟨c, hc, hconf⟩ := List.mem_map.1 hmem
  refine ⟨fun d hd => hle _ (List.mem_map_of_mem hd), c, hc, ?_⟩
  rw [hconf]
  exact hconf ▸ hle _ (List.mem_map_of_mem hc)

/-! ## What a node loses -/

/-- The confidence that stands for the one of a node after merging: that of its representative. -/
def confidenceAfter (f : Forest) (t : Binary64) (i : Nat) : Binary64 :=
  (f.quotient t).confidence (representative (f.classes t) i)

/-- The exact difference of the confidences of a node before and after merging, in units. -/
def loss (f : Forest) (t : Binary64) (i : Nat) : Int := (f.confidence i).units - (f.confidenceAfter t i).units

/-- A leaf is represented with the confidence of a leaf, which its own one is not below and does not exceed by more than the
tolerance allows. -/
theorem WellFormed.leaf_confidenceAfter (hf : f.WellFormed) (hcheck : f.Checked) (hleaf : f.LeavesSettled)
    (ht : Config.isTolerance t = true) {i : Nat} (hi : i ∈ f.walk) (hnil : f.children i = []) :
    ∃ j ∈ f.walk, f.children j = [] ∧ f.confidenceAfter t i = f.confidence j ∧ f.confidence j ≤ f.confidence i ∧
      f.confidence i - f.confidence j ≤ t + toleranceSlack := by
  obtain ⟨c, hc, hm, hclass⟩ := hf.exists_class (t := t) hi
  obtain ⟨_, k, hk, hkc, m, hmk, hconf⟩ := hf.class_confidence hcheck hleaf hc hm
  obtain ⟨j, hj, rfl⟩ := exists_of_mem_cluster hk (List.mem_of_mem_head? hmk)
  have hfin : AllFinite ((f.peersOf (f.classes t) i).map (f.member (f.classes t))) :=
    allFinite_of_settled fun x hx => hf.settled_mergedConfidence hcheck hleaf t (mem_peersOf.1 hx).1
  have hik := (mem_cluster_iff hk hkc i).2 hm
  have hle := first_le_of_mem_cluster hfin hk hmk hik
  have hwithin := within_of_mem_cluster ht hfin hk hmk hik
  -- the peers of a leaf are leaves, and leaves keep their confidences up to here
  have hjl := hj
  rw [hf.peersOf_leaf hi hnil, leavesLike, List.mem_filter, decide_eq_true_iff] at hjl
  obtain ⟨hjw, hjnil, _⟩ := hjl
  have hi' : (f.member (f.classes t) i).confidence = f.confidence i := mergedConfidence_leaf _ hnil
  have hj' : (f.member (f.classes t) j).confidence = f.confidence j := mergedConfidence_leaf _ hjnil
  rw [hi', hj'] at hle hwithin
  refine ⟨j, hjw, hjnil, ?_, hle, not_not.1 hwithin⟩
  rw [confidenceAfter, hf.confidence_representative hclass, hconf, hj']

/-- The representatives of the children of an inner node have confidences not below that of its representative, and one of them has
just that. -/
theorem WellFormed.inner_confidenceAfter (hf : f.WellFormed) (hcheck : f.Checked) (hleaf : f.LeavesSettled) {i : Nat}
    (hi : i ∈ f.walk) (hne : f.children i ≠ []) :
    (∀ c ∈ f.children i, f.confidenceAfter t i ≤ f.confidenceAfter t c) ∧
      ∃ c ∈ f.children i, f.confidenceAfter t c ≤ f.confidenceAfter t i := by
  have hrep := hf.representative_mem_walk_quotient t hi
  have hchildren := hf.children_representative t hi
  have hmin := hf.minOfChildren_quotient hcheck hleaf t _ hrep (by
    rw [hchildren]
    exact mt List.map_eq_nil_iff.1 hne)
  rw [hchildren] at hmin
  refine ⟨fun c hc => hmin.1 _ (List.mem_map_of_mem hc), ?_⟩
  obtain ⟨r, hr, hle⟩ := hmin.2
  obtain ⟨c, hc, rfl⟩ := List.mem_map.1 hr
  exact ⟨c, hc, hle⟩

/-- No representative has a confidence above that of a node that it represents. -/
theorem WellFormed.confidenceAfter_le (hf : f.WellFormed) (hcheck : f.Checked) (hleaf : f.LeavesSettled)
    (hmin : f.MinOfChildren) (ht : Config.isTolerance t = true) {i : Nat} (hi : i ∈ f.walk) :
    f.confidenceAfter t i ≤ f.confidence i := by
  revert hi
  induction i using hf.induction with
  | step i ih =>
    intro hi
    by_cases hnil : f.children i = []
    · obtain ⟨j, _, _, hafter, hle, _⟩ := hf.leaf_confidenceAfter hcheck hleaf ht hi hnil
      rw [hafter]
      exact hle
    · obtain ⟨c, hc, hle⟩ := (hmin i hi hnil).2
      have hafter := (hf.inner_confidenceAfter (t := t) hcheck hleaf hi hnil).1 c hc
      exact Binary64.le_trans hafter (Binary64.le_trans (ih c hc (hf.child_mem_walk hi hc)) hle)

/-- Where inner nodes have the least of the confidences of their children, all confidences are finite as those of the leaves are. -/
theorem WellFormed.isFinite_confidence (hf : f.WellFormed) (hleaf : f.LeavesSettled) (hmin : f.MinOfChildren) {i : Nat}
    (hi : i ∈ f.walk) : (f.confidence i).isFinite = true := by
  revert hi
  induction i using hf.induction with
  | step i ih =>
    intro hi
    by_cases hnil : f.children i = []
    · exact (hleaf i hi hnil).isFinite
    · obtain ⟨hle, c, hc, hge⟩ := hmin i hi hnil
      have hchild := ih c hc (hf.child_mem_walk hi hc)
      exact Binary64.isFinite_of_between hchild hchild hge (hle c hc)

theorem WellFormed.isFinite_confidenceAfter (hf : f.WellFormed) (hcheck : f.Checked) (hleaf : f.LeavesSettled) (t : Binary64)
    {i : Nat} (hi : i ∈ f.walk) : (f.confidenceAfter t i).isFinite = true :=
  (hf.settled_quotient hcheck hleaf (hf.representative_mem_walk_quotient t hi)).isFinite

/-- What a node loses, a leaf loses, too. -/
theorem WellFormed.exists_leaf_loss (hf : f.WellFormed) (hcheck : f.Checked) (hleaf : f.LeavesSettled)
    (hmin : f.MinOfChildren) (t : Binary64) {i : Nat} (hi : i ∈ f.walk) :
    ∃ j ∈ f.walk, f.children j = [] ∧ f.loss t i ≤ f.loss t j := by
  revert hi
  induction i using hf.induction with
  | step i ih =>
    intro hi
    by_cases hnil : f.children i = []
    · exact ⟨i, hi, hnil, Int.le_refl _⟩
    · -- the child whose representative is the least of all is not below `i` itself, so it loses at least as much
      obtain ⟨c, hc, hafter⟩ := (hf.inner_confidenceAfter (t := t) hcheck hleaf hi hnil).2
      have hcw := hf.child_mem_walk hi hc
      have hbefore := (hmin i hi hnil).1 c hc
      obtain ⟨j, hj, hjnil, hle⟩ := ih c hc hcw
      refine ⟨j, hj, hjnil, Int.le_trans ?_ hle⟩
      rw [Binary64.le_iff_units (hf.isFinite_confidence hleaf hmin hi) (hf.isFinite_confidence hleaf hmin hcw)] at hbefore
      rw [Binary64.le_iff_units (hf.isFinite_confidenceAfter hcheck hleaf t hcw)
        (hf.isFinite_confidenceAfter hcheck hleaf t hi)] at hafter
      unfold loss
      omega

/-- Under a tolerance of six places the difference of two settled confidences passes the test of a scan only if it does so as an exact
value. -/
theorem units_sub_le_of_settled {x y : Binary64} (hx : x.Settled) (hy : y.Settled) (ht : Config.isTolerance t = true)
    (hround : t.roundSix = t) (h : x - y ≤ t + toleranceSlack) : x.units - y.units ≤ t.units + toleranceSlack.units := by
  obtain ⟨hfin, hnonneg⟩ := (isTolerance_iff t).1 ht
  obtain ⟨_, hslack, _⟩ := toleranceSlack_spec
  by_cases hone : t ≤ 1
  · exact Binary64.units_sub_le_of_sub_le hx hy ⟨(Binary64.inUnit_iff t).2 ⟨hnonneg, hone⟩, hround⟩ isFinite_toleranceSlack hslack.1
      hslack.2 h
  · -- no two confidences differ by more than one
    rw [Binary64.le_iff_units hfin Binary64.isFinite_one, ← Binary64.rank_of_isFinite Binary64.isFinite_one,
      Binary64.rank_one] at hone
    have hx' := Binary64.units_between_of_inUnit hx.1
    have hy' := Binary64.units_between_of_inUnit hy.1
    omega

/-- A tolerance of six places compares settled confidences as their exact values compare. -/
theorem scansExactly_of_sixPlaces (hleaf : f.LeavesSettled) (ht : Config.isTolerance t = true) (hround : t.roundSix = t) :
    f.ScansExactly t :=
  fun i hi hnil j hj hjnil hle => units_sub_le_of_settled (hleaf i hi hnil) (hleaf j hj hjnil) ht hround hle

/-- Merging a forest without cycles, over settled confidences of its leaves and inner nodes with the least of the confidences of their
children, keeps that rule; and every node, however high it is, is represented by a node whose confidence is not above its own and
lies below it by no more than the tolerance and the slack. The bound holds of the numbers of the format, rounded as they are, and of
the exact values as soon as it holds of them where two leaves are compared, as under every tolerance of six places. -/
theorem merge_bounds_loss (hf : f.WellFormed) (hcheck : f.Checked) (hleaf : f.LeavesSettled) (hmin : f.MinOfChildren)
    (ht : Config.isTolerance t = true) :
    ∃ m, f.merge t = .ok m ∧ m.forest.MinOfChildren ∧ ∀ i ∈ f.walk, ∃ r ∈ m.forest.walk, r = representative (f.classes t) i ∧
      m.forest.confidence r ≤ f.confidence i ∧ f.confidence i - m.forest.confidence r ≤ t + toleranceSlack ∧
      (f.ScansExactly t →
        (f.confidence i).units - (m.forest.confidence r).units ≤ t.units + toleranceSlack.units) := by
  refine ⟨_, f.merge_eq ht, hf.minOfChildren_quotient hcheck hleaf t, fun i hi => ?_⟩
  refine ⟨_, hf.representative_mem_walk_quotient t hi, rfl, hf.confidenceAfter_le hcheck hleaf hmin ht hi, ?_, ?_⟩
  · obtain ⟨j, hj, hnil, hloss⟩ := hf.exists_leaf_loss hcheck hleaf hmin t hi
    obtain ⟨k, _, _, hafter, _, hwithin⟩ := hf.leaf_confidenceAfter hcheck hleaf ht hj hnil
    rw [← hafter] at hwithin
    refine Binary64.le_trans (Binary64.sub_le_sub_of_units ?_ ?_ ?_ ?_ hloss) hwithin
    · exact hf.isFinite_confidence hleaf hmin hi
    · exact hf.isFinite_confidenceAfter hcheck hleaf t hi
    · exact hf.isFinite_confidence hleaf hmin hj
    · exact hf.isFinite_confidenceAfter hcheck hleaf t hj
  · intro hexact
    obtain ⟨j, hj, hnil, hloss⟩ := hf.exists_leaf_loss hcheck hleaf hmin t hi
    obtain ⟨k, hk, hknil, hafter, _, hwithin⟩ := hf.leaf_confidenceAfter hcheck hleaf ht hj hnil
    have hbound := hexact j hj hnil k hk hknil hwithin
    rw [← hafter] at hbound
    exact Int.le_trans hloss hbound

/-- Two blocks over statements that read two close names and share a constant. -/
def nestedExample : Forest where
  nodes := #[
    ⟨⟨"a", .terminal, "x", .declare, 0.9, none, some ⟨"a", .terminal, "x", "name", .identifier, 1, none, none, none⟩⟩, [], 0⟩,
    ⟨⟨"b", .terminal, "x", .declare, 0.93, none, some ⟨"b", .terminal, "x", "name", .identifier, 1, none, none, none⟩⟩, [], 0⟩,
    ⟨⟨"c", .terminal, "1", .query, 0.95, none, some ⟨"c", .terminal, "1", "number", .literal, 1, none, none, none⟩⟩, [], 0⟩,
    ⟨⟨"d", .nonterminal, "row", .assign, 0.9, none, none⟩, [0, 2], 1⟩,
    ⟨⟨"e", .nonterminal, "row", .assign, 0.93, none, none⟩, [1, 2], 1⟩,
    ⟨⟨"f", .nonterminal, "block", .control, 0.9, none, none⟩, [3], 2⟩,
    ⟨⟨"g", .nonterminal, "block", .control, 0.93, none, none⟩, [4], 2⟩]
  roots := [5, 6]

/-- In the nested forest all three levels are merged, and a block loses no more than the tolerance, as the name below it does. -/
theorem merge_bounds_loss_nested : ∃ m, nestedExample.merge 0.05 = .ok m ∧ m.forest.MinOfChildren ∧
    ∀ i ∈ nestedExample.walk, ∃ r ∈ m.forest.walk, r = representative (nestedExample.classes 0.05) i ∧
      m.forest.confidence r ≤ nestedExample.confidence i ∧
      nestedExample.confidence i - m.forest.confidence r ≤ 0.05 + toleranceSlack ∧
      (nestedExample.confidence i).units - (m.forest.confidence r).units ≤ (0.05 : Binary64).units + toleranceSlack.units := by
  have hleaf : nestedExample.LeavesSettled := by decide +kernel
  have ht : Config.isTolerance 0.05 = true ∧ (0.05 : Binary64).roundSix = 0.05 := by decide +kernel
  have hexact := scansExactly_of_sixPlaces hleaf ht.1 ht.2
  obtain ⟨m, hm, hmin, hloss⟩ := merge_bounds_loss (f := nestedExample) (t := 0.05) (by decide +kernel) (by decide +kernel)
    hleaf (by decide +kernel) ht.1
  refine ⟨m, hm, hmin, fun i hi => ?_⟩
  obtain ⟨r, hr, hrep, hle, hwithin, hbound⟩ := hloss i hi
  exact ⟨r, hr, hrep, hle, hwithin, hbound hexact⟩

end Forest

end TokenForest
