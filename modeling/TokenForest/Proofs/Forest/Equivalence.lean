import Mathlib.Data.Set.Card
import TokenForest.Proofs.Binary64.SixPlaces
import TokenForest.Proofs.Forest.Idempotence
import TokenForest.Proofs.Forest.Scan

/-!
# Merging merges exactly the equivalent nodes

Which nodes are equivalent is said without classes and levels: leaves that say the same are equivalent when a scan of the
confidences of such leaves puts theirs into one class, and inner nodes that say the same are equivalent when their children are,
one by one. Two nodes have one representative exactly when they are equivalent, by induction on their height: the children of
equivalent nodes have one representative each, so the nodes are peers, and the peers of an inner node all have one confidence.
-/

namespace TokenForest

namespace Forest

variable {f : Forest} {t : Binary64}

/-! ## Nodes of one cluster -/

theorem content_eq_iff {classes : List MergeClass} {i j : Nat} : f.signature classes i = f.signature classes j ↔
    f.content i = f.content j ∧ (f.children i).map (representative classes) = (f.children j).map (representative classes) := by
  simp only [signature, content, Signature.mk.injEq, Prod.mk.injEq, and_assoc]

/-- The members of a class are the nodes of the members of its cluster. -/
theorem mem_cluster_iff {classes : List MergeClass} {nodes : List Nat} {k : List Member}
    (hk : k ∈ clusters t (nodes.map (f.member classes))) {c : MergeClass} (hkc : classOf k = some c) (i : Nat) :
    f.member classes i ∈ k ↔ i ∈ c.members := by
  obtain ⟨_, _, _, _, hmem, _⟩ := classOf_eq_some hkc
  rw [hmem, List.mem_map]
  constructor
  · intro hi
    exact ⟨_, hi, rfl⟩
  · rintro ⟨m, hm, rfl⟩
    obtain ⟨j, _, rfl⟩ := exists_of_mem_cluster hk hm
    exact hm

theorem nodup_peers (hf : f.WellFormed) (t : Binary64) (i : Nat) :
    ((f.peersOf (f.classes t) i).map (f.member (f.classes t))).Nodup :=
  ((hf.nodup_walk.filter _).filter _).map fun _ _ hab => congrArg Member.node hab

/-- Two nodes that can be reached have one representative exactly when one cluster of the peers of the first holds both. -/
theorem WellFormed.representative_eq_iff (hf : f.WellFormed) (t : Binary64) {i j : Nat} (hi : i ∈ f.walk) (hj : j ∈ f.walk) :
    representative (f.classes t) i = representative (f.classes t) j ↔
      ∃ k ∈ clusters t ((f.peersOf (f.classes t) i).map (f.member (f.classes t))),
        f.member (f.classes t) i ∈ k ∧ f.member (f.classes t) j ∈ k := by
  obtain ⟨c, hc, hmi, hclassi⟩ := hf.exists_class (t := t) hi
  obtain ⟨c', hc', hmj, hclassj⟩ := hf.exists_class (t := t) hj
  obtain ⟨k, hk, hkc⟩ := hf.exists_cluster_of_mem hc hmi
  rw [representative_eq hclassi, representative_eq hclassj]
  constructor
  · intro hrep
    have hcc : c = c' := by
      apply hf.class_unique hc hc' (representative_mem hc)
      rw [hrep]
      exact representative_mem hc'
    subst hcc
    exact ⟨k, hk, (mem_cluster_iff hk hkc i).2 hmi, (mem_cluster_iff hk hkc j).2 hmj⟩
  · rintro ⟨k', hk', hi', hj'⟩
    have hkk : k = k' := cluster_unique (nodup_peers hf t i) hk hk' ((mem_cluster_iff hk hkc i).2 hmi) hi'
    subst hkk
    rw [hf.class_unique hc hc' ((mem_cluster_iff hk hkc j).1 hj') hmj]

theorem finite_of_leaves (hf : f.WellFormed) (hcheck : f.Checked) (hleaf : f.LeavesFinite) (t : Binary64) (i : Nat) :
    AllFinite ((f.peersOf (f.classes t) i).map (f.member (f.classes t))) := by
  intro m hm
  obtain ⟨j, hj, rfl⟩ := List.mem_map.1 hm
  have hround : ∀ x : Binary64, x.isFinite = true → x.roundSix.isFinite = true := fun _ => Binary64.isFinite_roundSix
  exact hf.forall_mergedConfidence hcheck hround hleaf t (mem_peersOf.1 hj).1

/-- Peers of one confidence have one representative. -/
theorem WellFormed.representative_eq_of_confidence (hf : f.WellFormed) (hcheck : f.Checked) (hleaf : f.LeavesFinite)
    (ht : Config.isTolerance t = true) {i j : Nat} (hi : i ∈ f.walk) (hj : j ∈ f.peersOf (f.classes t) i)
    (hconf : f.mergedConfidence (f.classes t) i = f.mergedConfidence (f.classes t) j) :
    representative (f.classes t) i = representative (f.classes t) j := by
  have hself : i ∈ f.peersOf (f.classes t) i := mem_peersOf.2 ⟨hi, rfl, rfl⟩
  have hmem : ∀ x ∈ f.peersOf (f.classes t) i, ∃ k ∈ clusters t ((f.peersOf (f.classes t) i).map (f.member (f.classes t))),
      f.member (f.classes t) x ∈ k := by
    intro x hx
    apply List.mem_flatten.1
    exact (clusters_perm t _).mem_iff.2 (List.mem_map_of_mem hx)
  obtain ⟨k, hk, hik⟩ := hmem i hself
  obtain ⟨k', hk', hjk⟩ := hmem j hj
  have hvalue : (f.member (f.classes t) i).value = (f.member (f.classes t) j).value :=
    congrArg Binary64.dropZeroSign hconf
  have hkk : k = k' := cluster_unique_of_value ht (finite_of_leaves hf hcheck hleaf t i) hk hk' hik hjk hvalue
  subst hkk
  exact (hf.representative_eq_iff t hi (mem_peersOf.1 hj).1).2 ⟨k, hk, hik, hjk⟩

/-! ## Leaves -/

/-- A leaf keeps its confidence. -/
theorem mergedConfidence_leaf (classes : List MergeClass) {i : Nat} (h : f.children i = []) :
    f.mergedConfidence classes i = f.confidence i := by
  unfold mergedConfidence
  split
  · rfl
  · rw [h]
    rfl

/-- The peers of a leaf are the leaves that say what it says. -/
theorem WellFormed.peersOf_leaf (hf : f.WellFormed) {classes : List MergeClass} {i : Nat} (hi : i ∈ f.walk)
    (h : f.children i = []) : f.peersOf classes i = f.leavesLike i := by
  unfold peersOf peers level leavesLike
  rw [List.filter_filter]
  apply List.filter_congr
  intro j hj
  have hheight : ∀ x ∈ f.walk, f.children x = [] → f.height x = 0 := by
    intro x hx hnil
    rw [(hf.1 x (hf.lt_of_mem_walk hx)).2, hnil]
    rfl
  rw [← Bool.decide_and, decide_eq_decide, content_eq_iff, h, List.map_nil, List.map_eq_nil_iff]
  constructor
  · rintro ⟨⟨hsame, hnil⟩, _⟩
    exact ⟨hnil, hsame⟩
  · rintro ⟨hnil, hsame⟩
    exact ⟨⟨hsame, hnil⟩, (hheight j hj hnil).trans (hheight i hi h).symm⟩

theorem value_member_leaf (classes : List MergeClass) {i : Nat} (h : f.children i = []) :
    (f.member classes i).value = f.value i := by
  unfold value Member.value member
  rw [mergedConfidence_leaf classes h]

/-- The clusters of the peers of a leaf have the values that a scan of their confidences finds. -/
theorem WellFormed.map_value_clusters_leaf (hf : f.WellFormed) (hcheck : f.Checked) (hleaf : f.LeavesFinite) {i : Nat}
    (hi : i ∈ f.walk) (h : f.children i = []) :
    (clusters t ((f.peersOf (f.classes t) i).map (f.member (f.classes t)))).map (fun k => k.map Member.value) =
      scan t (ascending ((f.leavesLike i).map f.value)) := by
  rw [map_value_clusters t (finite_of_leaves hf hcheck hleaf t i), hf.peersOf_leaf hi h, List.map_map]
  congr 2
  apply List.map_congr_left
  intro j hj
  have hnil : f.children j = [] := by
    have hj := (List.mem_filter.1 hj).2
    rw [decide_eq_true_iff] at hj
    exact hj.1
  exact value_member_leaf _ hnil

/-- Two leaves that say the same have one representative exactly when they lie together in the scan. -/
theorem WellFormed.representative_leaf_iff (hf : f.WellFormed) (hcheck : f.Checked) (hleaf : f.LeavesFinite)
    (ht : Config.isTolerance t = true) {i j : Nat} (hi : i ∈ f.walk) (hj : j ∈ f.walk) (hni : f.children i = [])
    (hnj : f.children j = []) (hsame : f.content i = f.content j) :
    representative (f.classes t) i = representative (f.classes t) j ↔ f.Together t i j := by
  have hfin := finite_of_leaves hf hcheck hleaf t i
  have hpi : i ∈ f.peersOf (f.classes t) i := mem_peersOf.2 ⟨hi, rfl, rfl⟩
  have hpj : j ∈ f.peersOf (f.classes t) i := by
    rw [hf.peersOf_leaf hi hni]
    exact List.mem_filter.2 ⟨hj, decide_eq_true ⟨hnj, hsame.symm⟩⟩
  rw [hf.representative_eq_iff t hi hj]
  unfold Together
  rw [← hf.map_value_clusters_leaf hcheck hleaf hi hni, ← value_member_leaf (f.classes t) hni,
    ← value_member_leaf (f.classes t) hnj]
  constructor
  · rintro ⟨k, hk, hik, hjk⟩
    exact ⟨_, List.mem_map_of_mem hk, List.mem_map_of_mem hik, List.mem_map_of_mem hjk⟩
  · rintro ⟨_, hv, hiv, hjv⟩
    obtain ⟨k, hk, rfl⟩ := List.mem_map.1 hv
    -- a member with a value of the cluster is in the cluster
    have hmem : ∀ x ∈ f.peersOf (f.classes t) i, (f.member (f.classes t) x).value ∈ k.map Member.value →
        f.member (f.classes t) x ∈ k := by
      intro x hx hxv
      obtain ⟨m, hm, hmv⟩ := List.mem_map.1 hxv
      obtain ⟨k', hk', hxk⟩ := List.mem_flatten.1 ((clusters_perm t _).mem_iff.2 (List.mem_map_of_mem hx))
      rw [cluster_unique_of_value ht hfin hk hk' hm hxk hmv]
      exact hxk
    exact ⟨k, hk, hmem i hpi hiv, hmem j hpj hjv⟩

/-! ## Inner nodes -/

/-- Two lists have the same images exactly when their elements are related one by one, where images decide the relation. -/
theorem map_eq_map_iff_forall₂ {g : Nat → Nat} {R : Nat → Nat → Prop} {cs ds : List Nat}
    (h : ∀ c ∈ cs, ∀ d ∈ ds, (g c = g d ↔ R c d)) : cs.map g = ds.map g ↔ List.Forall₂ R cs ds := by
  induction cs generalizing ds with
  | nil => cases ds <;> simp
  | cons c cs ih =>
    cases ds with
    | nil => simp
    | cons d ds =>
      have hrest : cs.map g = ds.map g ↔ List.Forall₂ R cs ds := ih (fun x hx y hy => h x (by simp [hx]) y (by simp [hy]))
      rw [List.map_cons, List.map_cons, List.cons.injEq, List.forall₂_cons, h c (by simp) d (by simp), hrest]

/-- Peers with children have one representative. -/
theorem WellFormed.representative_inner (hf : f.WellFormed) (hcheck : f.Checked) (hleaf : f.LeavesFinite)
    (ht : Config.isTolerance t = true) {i j : Nat} (hi : i ∈ f.walk) (hni : f.children i ≠ [])
    (hj : j ∈ f.peersOf (f.classes t) i) : representative (f.classes t) i = representative (f.classes t) j := by
  obtain ⟨hjw, _, hsign⟩ := mem_peersOf.1 hj
  obtain ⟨_, hchildren⟩ := content_eq_iff.1 hsign
  have hnj : f.children j ≠ [] := by
    intro hnil
    rw [hnil, List.map_nil, eq_comm, List.map_eq_nil_iff] at hchildren
    exact hni hchildren
  have hki : (f.node i).info.kind ≠ .terminal := fun hk => hni (hcheck.children_eq_nil hi hk)
  have hkj : (f.node j).info.kind ≠ .terminal := fun hk => hnj (hcheck.children_eq_nil hjw hk)
  apply hf.representative_eq_of_confidence hcheck hleaf ht hi hj
  rw [hf.mergedConfidence_eq hi 0 hki hni, hf.mergedConfidence_eq hjw 0 hkj hnj, hchildren]

/-- Nodes whose children have one representative each are equally high. -/
theorem WellFormed.height_eq_of_children (hf : f.WellFormed) {i j : Nat} (hi : i ∈ f.walk) (hj : j ∈ f.walk)
    (h : (f.children i).map (representative (f.classes t)) = (f.children j).map (representative (f.classes t))) :
    f.height i = f.height j := by
  have hheights : ∀ cs : List Nat, (cs.map (representative (f.classes t))).map f.height = cs.map f.height := by
    intro cs
    rw [List.map_map]
    exact List.map_congr_left (fun c _ => hf.height_representative t c)
  rw [(hf.1 i (hf.lt_of_mem_walk hi)).2, (hf.1 j (hf.lt_of_mem_walk hj)).2, ← hheights, h, hheights]

/-- Two nodes that can be reached have one representative exactly when they are equivalent. -/
theorem WellFormed.representative_eq_iff_equivalent (hf : f.WellFormed) (hcheck : f.Checked) (hleaf : f.LeavesFinite)
    (ht : Config.isTolerance t = true) {i j : Nat} (hi : i ∈ f.walk) (hj : j ∈ f.walk) :
    representative (f.classes t) i = representative (f.classes t) j ↔ f.Equivalent t i j := by
  revert hi j
  induction i using hf.induction with
  | step i ih =>
    intro j hi hj
    have hchildren : (f.children i).map (representative (f.classes t)) = (f.children j).map (representative (f.classes t)) ↔
        List.Forall₂ (f.Equivalent t) (f.children i) (f.children j) := map_eq_map_iff_forall₂ (fun c hc d hd => ih c hc (hf.child_mem_walk hi hc) (hf.child_mem_walk hj hd))
    constructor
    · intro hrep
      obtain ⟨k, hk, _, hjk⟩ := (hf.representative_eq_iff t hi hj).1 hrep
      obtain ⟨x, hx, hxj⟩ := exists_of_mem_cluster hk hjk
      have hpj : j ∈ f.peersOf (f.classes t) i := by
        have : x = j := congrArg Member.node hxj
        rwa [this] at hx
      obtain ⟨hsame, hreps⟩ := content_eq_iff.1 (mem_peersOf.1 hpj).2.2
      by_cases hni : f.children i = []
      · have hnj : f.children j = [] := by
          rwa [hni, List.map_nil, List.map_eq_nil_iff] at hreps
        exact .leaf hni hnj hsame.symm ((hf.representative_leaf_iff hcheck hleaf ht hi hj hni hnj hsame.symm).1 hrep)
      · have hnj : f.children j ≠ [] := by
          intro hnil
          rw [hnil, List.map_nil, eq_comm, List.map_eq_nil_iff] at hreps
          exact hni hreps
        exact .inner hni hnj hsame.symm (hchildren.1 hreps.symm)
    · intro heq
      cases heq with
      | leaf hni hnj hsame htogether =>
        exact (hf.representative_leaf_iff hcheck hleaf ht hi hj hni hnj hsame).2 htogether
      | inner hni hnj hsame hforall =>
        have hreps := hchildren.2 hforall
        have hpj : j ∈ f.peersOf (f.classes t) i :=
          mem_peersOf.2 ⟨hj, hf.height_eq_of_children hj hi hreps.symm, content_eq_iff.2 ⟨hsame.symm, hreps.symm⟩⟩
        exact hf.representative_inner hcheck hleaf ht hi hni hpj

end Forest

end TokenForest
