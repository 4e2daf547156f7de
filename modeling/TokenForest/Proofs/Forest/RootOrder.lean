import TokenForest.Proofs.Forest.Census

/-!
# The order of the roots

The walk of a forest, its levels and the members of a signature come in an order that the roots decide. Where no confidence is
not a number and no two nodes have one name, arranging a level forgets this order, since no two members compare alike; so every node
has the same class whatever the order of the roots is, and merging differs in nothing but the order of the roots.
-/

namespace TokenForest

namespace Forest

/-! ## Arranging in any order -/

/-- Keys that are not above each other are one key. -/
theorem rankLe_antisymm {a b : (Int × Int × Int) × Nat × String} (h : rankLe a b = true) (h' : rankLe b a = true) : a = b := by
  by_cases hab : a.1 = b.1
  · simp only [rankLe, hab, if_pos, Bool.or_eq_true, Bool.and_eq_true, decide_eq_true_eq] at h h'
    have hsize : a.2.1 = b.2.1 := by omega
    have hname : a.2.2 = b.2.2 := by
      rcases h with h | h
      · omega
      · rcases h' with h' | h'
        · omega
        · exact String.le_antisymm h.2 h'.2
    exact Prod.ext hab (Prod.ext hsize hname)
  · simp only [rankLe, hab, Ne.symm hab, if_false] at h h'
    exact absurd (Position.keyLe_antisymm h h') hab

namespace Member

/-- Members that are numbers and differ in their keys are arranged in one way only, whatever order they come in. -/
theorem arrange_eq_of_perm {ms ms' : List Member} (hperm : ms'.Perm ms) (hnum : ∀ m ∈ ms, m.confidence ≠ .nan)
    (hkey : ∀ a ∈ ms, ∀ b ∈ ms, a.key = b.key → a = b) : arrange ms' = arrange ms := by
  have hsame : (arrange ms').Perm (arrange ms) := (arrange_perm ms').trans (hperm.trans (arrange_perm ms).symm)
  have hmem : ∀ m ∈ arrange ms, m ∈ ms := fun m hm => (arrange_perm ms).mem_iff.1 hm
  refine hsame.eq_of_pairwise ?_ (pairwise_arrange fun m hm => hnum m (hperm.mem_iff.1 hm)) (pairwise_arrange hnum)
  intro a b ha hb hab hba
  rw [leByRank_iff] at hab hba
  refine hkey a (hmem a (hsame.mem_iff.1 ha)) b (hmem b hb) ?_
  rcases hab with hab | hab
  · omega
  · rcases hba with hba | hba
    · omega
    · exact rankLe_antisymm hab.2 hba.2

end Member

theorem clusters_eq_of_perm (t : Binary64) {ms ms' : List Member} (hperm : ms'.Perm ms) (hnum : ∀ m ∈ ms, m.confidence ≠ .nan)
    (hkey : ∀ a ∈ ms, ∀ b ∈ ms, a.key = b.key → a = b) : clusters t ms' = clusters t ms := by
  unfold clusters
  rw [Member.arrange_eq_of_perm hperm hnum hkey]

/-! ## Other roots -/

variable {f : Forest} {t : Binary64} {roots : List Nat}

@[simp] theorem nodes_reroot : (f.reroot roots).nodes = f.nodes := rfl

@[simp] theorem node_reroot (i : Nat) : (f.reroot roots).node i = f.node i := rfl

@[simp] theorem children_reroot (i : Nat) : (f.reroot roots).children i = f.children i := rfl

@[simp] theorem height_reroot (i : Nat) : (f.reroot roots).height i = f.height i := rfl

theorem unfold_reroot (d i : Nat) : (f.reroot roots).unfold d i = f.unfold d i := by
  induction d generalizing i with
  | zero => rfl
  | succ d ih =>
    unfold unfold
    rw [node_reroot, children_reroot, List.map_congr_left (fun c _ => ih c)]

@[simp] theorem rank_reroot (i : Nat) : (f.reroot roots).rank i = f.rank i := by
  rw [rank, rank, node_reroot, tree, tree, height_reroot, unfold_reroot]

@[simp] theorem mergedConfidence_reroot (classes : List MergeClass) (i : Nat) :
    (f.reroot roots).mergedConfidence classes i = f.mergedConfidence classes i := rfl

@[simp] theorem member_reroot (classes : List MergeClass) (i : Nat) :
    (f.reroot roots).member classes i = f.member classes i := by
  rw [member, member, mergedConfidence_reroot, rank_reroot]

/-! ## The same nodes -/

theorem WellFormed.reroot (hf : f.WellFormed) (hperm : roots.Perm f.roots) : (f.reroot roots).WellFormed :=
  ⟨hf.1, fun r hr => hf.2 r (hperm.mem_iff.1 hr)⟩

theorem reachable_reroot (hperm : roots.Perm f.roots) (i : Nat) : (f.reroot roots).Reachable i ↔ f.Reachable i := by
  constructor
  · intro h
    induction h with
    | root hr => exact .root (hperm.mem_iff.1 hr)
    | child _ hc ih => exact .child ih hc
  · intro h
    induction h with
    | root hr => exact .root (hperm.mem_iff.2 hr)
    | child _ hc ih => exact .child ih hc

theorem WellFormed.mem_walk_reroot (hf : f.WellFormed) (hperm : roots.Perm f.roots) (i : Nat) :
    i ∈ (f.reroot roots).walk ↔ i ∈ f.walk := by
  rw [(hf.reroot hperm).mem_walk_iff, hf.mem_walk_iff, reachable_reroot hperm]

/-- The order of the roots decides only in which order the walk meets the nodes. -/
theorem WellFormed.walk_reroot (hf : f.WellFormed) (hperm : roots.Perm f.roots) : (f.reroot roots).walk.Perm f.walk :=
  (List.perm_ext_iff_of_nodup (hf.reroot hperm).nodup_walk hf.nodup_walk).2 (hf.mem_walk_reroot hperm)

/-! ## The same classes -/

/-- The members that the peers of a node are on their level are numbers, and differ in their keys. -/
theorem WellFormed.peers_distinct (hf : f.WellFormed) (hcheck : f.Checked) (hnum : f.LeavesNumbers) (hnames : f.DistinctNames)
    (t : Binary64) (i : Nat) :
    (∀ m ∈ (f.peersOf (f.classes t) i).map (f.member (f.classes t)), m.confidence ≠ .nan) ∧
      ∀ a ∈ (f.peersOf (f.classes t) i).map (f.member (f.classes t)),
        ∀ b ∈ (f.peersOf (f.classes t) i).map (f.member (f.classes t)), a.key = b.key → a = b := by
  constructor
  · intro m hm
    obtain ⟨j, hj, rfl⟩ := List.mem_map.1 hm
    exact hf.forall_mergedConfidence hcheck (P := (· ≠ .nan)) (fun _ => Binary64.roundSix_ne_nan) hnum t (mem_peersOf.1 hj).1
  · intro a ha b hb hkey
    obtain ⟨j, hj, rfl⟩ := List.mem_map.1 ha
    obtain ⟨k, hk, rfl⟩ := List.mem_map.1 hb
    have hname : (f.node j).info.id = (f.node k).info.id := congrArg (fun key => key.2.2) hkey
    rw [hnames j (mem_peersOf.1 hj).1 k (mem_peersOf.1 hk).1 hname]

/-- Once the classes below a level are the same, the peers of its nodes are the same members in another order. -/
theorem WellFormed.peers_reroot (hf : f.WellFormed) (hperm : roots.Perm f.roots) {i : Nat}
    (hlow : ∀ j ∈ f.walk, f.height j = f.height i → ∀ c ∈ f.children j,
      class? ((f.reroot roots).classes t) c = class? (f.classes t) c) (hi : i ∈ f.walk) :
    (((f.reroot roots).peersOf ((f.reroot roots).classes t) i).map ((f.reroot roots).member ((f.reroot roots).classes t))).Perm
      ((f.peersOf (f.classes t) i).map (f.member (f.classes t))) := by
  have hsign : ∀ j ∈ f.walk, f.height j = f.height i →
      f.signature ((f.reroot roots).classes t) j = f.signature (f.classes t) j :=
    fun j hj hh => signature_congr (hlow j hj hh)
  have hpeers : ((f.reroot roots).peersOf ((f.reroot roots).classes t) i).Perm (f.peersOf (f.classes t) i) := by
    have hnodup : ∀ {g : Forest} (classes : List MergeClass), g.WellFormed → (g.peersOf classes i).Nodup :=
      fun _ hg => (hg.nodup_walk.filter _).filter _
    refine (List.perm_ext_iff_of_nodup (hnodup _ (hf.reroot hperm)) (hnodup _ hf)).2 fun j => ?_
    rw [mem_peersOf, mem_peersOf, hf.mem_walk_reroot hperm]
    constructor
    · rintro ⟨hj, hh, hs⟩
      exact ⟨hj, hh, (hsign j hj hh).symm.trans (hs.trans (hsign i hi rfl))⟩
    · rintro ⟨hj, hh, hs⟩
      exact ⟨hj, hh, (hsign j hj hh).trans (hs.trans (hsign i hi rfl).symm)⟩
  refine (hpeers.map _).trans (List.Perm.of_eq (List.map_congr_left fun j hj => ?_))
  rw [member_reroot]
  exact member_congr (hlow j (mem_peersOf.1 hj).1 (mem_peersOf.1 hj).2.1)

/-- A node has the same class whatever the order of the roots is. -/
theorem WellFormed.class?_reroot (hf : f.WellFormed) (hcheck : f.Checked) (hnum : f.LeavesNumbers) (hnames : f.DistinctNames)
    (hperm : roots.Perm f.roots) (i : Nat) : class? ((f.reroot roots).classes t) i = class? (f.classes t) i := by
  have hg := hf.reroot hperm
  by_cases hi : i ∈ f.walk
  · suffices h : ∀ n, ∀ i ∈ f.walk, f.height i = n →
        class? ((f.reroot roots).classes t) i = class? (f.classes t) i from h _ i hi rfl
    intro n
    -- peers are compared by the classes of their children, so the induction is on heights and not on nodes
    induction n using Nat.strongRecOn with
    | ind n ih =>
      intro i hi hn
      have hlow : ∀ j ∈ f.walk, f.height j = f.height i → ∀ c ∈ f.children j,
          class? ((f.reroot roots).classes t) c = class? (f.classes t) c := by
        intro j hj hh c hc
        have hc' := hf.height_child_lt hc
        exact ih _ (by omega) c (hf.child_mem_walk hj hc) rfl
      obtain ⟨hnumbers, hkeys⟩ := hf.peers_distinct hcheck hnum hnames t i
      have hclusters := clusters_eq_of_perm t (hf.peers_reroot hperm hlow hi) hnumbers hkeys
      obtain ⟨c, hc, hm, hclass⟩ := hf.exists_class (t := t) hi
      obtain ⟨c', hc', hm', hclass'⟩ := hg.exists_class (t := t) ((hf.mem_walk_reroot hperm i).2 hi)
      obtain ⟨k, hk, hkc⟩ := hf.exists_cluster_of_mem hc hm
      obtain ⟨k', hk', hkc'⟩ := hg.exists_cluster_of_mem hc' hm'
      have hik := (mem_cluster_iff hk hkc i).2 hm
      have hik' := (mem_cluster_iff hk' hkc' i).2 hm'
      rw [hclusters] at hk'
      rw [member_reroot, member_congr (hlow i hi rfl)] at hik'
      rw [cluster_unique (nodup_peers hf t i) hk hk' hik hik'] at hkc
      rw [hclass, hclass', Option.some.inj (hkc.symm.trans hkc')]
  · rw [hf.class?_eq_none hi, hg.class?_eq_none (mt (hf.mem_walk_reroot hperm i).1 hi)]

/-- The classes of the forest with its roots in another order are the same ones. -/
theorem WellFormed.classes_reroot (hf : f.WellFormed) (hcheck : f.Checked) (hnum : f.LeavesNumbers) (hnames : f.DistinctNames)
    (hperm : roots.Perm f.roots) : ((f.reroot roots).classes t).Perm (f.classes t) := by
  have hg := hf.reroot hperm
  have hnodup : ∀ {g : Forest}, g.WellFormed → (g.classes t).Nodup := fun hg =>
    List.Nodup.of_map (·.representative) ((hg.map_representative_perm t).nodup_iff.2 (hg.quotient t).nodup_walk)
  refine (List.perm_ext_iff_of_nodup (hnodup hg) (hnodup hf)).2 fun c => ?_
  have hclass := fun i => hf.class?_reroot (t := t) hcheck hnum hnames hperm i
  constructor
  · intro hc
    have hread := hg.class?_eq_some_iff.2 ⟨hc, representative_mem hc⟩
    rw [hclass] at hread
    exact (hf.class?_eq_some_iff.1 hread).1
  · intro hc
    have hread := hf.class?_eq_some_iff.2 ⟨hc, representative_mem hc⟩
    rw [← hclass] at hread
    exact (hg.class?_eq_some_iff.1 hread).1

/-- Classes of different names can be reported in one order only. -/
theorem reported_eq_of_perm {cs cs' : List MergeClass} (hperm : cs'.Perm cs)
    (hnames : ∀ c ∈ cs, ∀ d ∈ cs, (f.nameClass c).representative = (f.nameClass d).representative → c = d) :
    f.reported cs' = f.reported cs := by
  have hsame : (f.reported cs').Perm (f.reported cs) := by
    refine (List.mergeSort_perm _ _).trans ?_
    exact ((hperm.filter _).map _).trans (List.mergeSort_perm _ _).symm
  have htrans : ∀ a b c : EquivalenceClass, decide (a.representative ≤ b.representative) = true →
      decide (b.representative ≤ c.representative) = true → decide (a.representative ≤ c.representative) = true := by
    intro a b c hab hbc
    rw [decide_eq_true_iff] at *
    exact String.le_trans hab hbc
  have htotal : ∀ a b : EquivalenceClass,
      (decide (a.representative ≤ b.representative) || decide (b.representative ≤ a.representative)) = true := by
    intro a b
    rw [Bool.or_eq_true, decide_eq_true_iff, decide_eq_true_iff]
    exact String.le_total _ _
  refine hsame.eq_of_pairwise ?_ (List.pairwise_mergeSort htrans htotal _) (List.pairwise_mergeSort htrans htotal _)
  intro a b ha hb hab hba
  rw [decide_eq_true_iff] at hab hba
  obtain ⟨c, hc, rfl⟩ := List.mem_map.1 (List.mem_mergeSort.1 (hsame.mem_iff.1 ha))
  obtain ⟨d, hd, rfl⟩ := List.mem_map.1 (List.mem_mergeSort.1 hb)
  rw [hnames c (List.mem_of_mem_filter hc) d (List.mem_of_mem_filter hd) (String.le_antisymm hab hba)]

/-- Merging reads the classes of the nodes only. -/
theorem nodes_quotient_reroot (hclass : ∀ i, class? ((f.reroot roots).classes t) i = class? (f.classes t) i) :
    ((f.reroot roots).quotient t).nodes = (f.quotient t).nodes := by
  have hrep : representative ((f.reroot roots).classes t) = representative (f.classes t) :=
    funext fun i => representative_congr (hclass i)
  have hnode : (f.reroot roots).mergedNode ((f.reroot roots).classes t) = f.mergedNode (f.classes t) := by
    funext i n
    have hconf : f.mergedConfidence ((f.reroot roots).classes t) i = f.mergedConfidence (f.classes t) i :=
      congrArg Member.confidence (member_congr fun c _ => hclass c)
    rw [mergedNode, mergedNode, hclass, mergedConfidence_reroot, hconf, hrep]
  rw [quotient, quotient, mergeClasses, mergeClasses, hnode, nodes_reroot]

/-! ## The order of the roots does not matter -/

/-- Merging a forest without cycles, with different names and without confidences that are not numbers, does not depend on the order
of its roots: every node has the same representative, so the roots of the result are in the order given, and the nodes, the reported
classes and the numbers of nodes are the same. -/
theorem merge_reroot (hf : f.WellFormed) (hcheck : f.Checked) (hnum : f.LeavesNumbers) (hnames : f.DistinctNames)
    (ht : Config.isTolerance t = true) (hperm : roots.Perm f.roots) :
    ∃ m m', f.merge t = .ok m ∧ (f.reroot roots).merge t = .ok m' ∧
      m.forest.roots = f.roots.map (representative (f.classes t)) ∧ m'.forest.roots = roots.map (representative (f.classes t)) ∧
      (∀ i, representative ((f.reroot roots).classes t) i = representative (f.classes t) i) ∧
      m'.forest.nodes = m.forest.nodes ∧ m'.classes = m.classes ∧ m'.before = m.before ∧ m'.after = m.after := by
  have hclass := fun i => hf.class?_reroot (t := t) hcheck hnum hnames hperm i
  have hrep : ∀ i, representative ((f.reroot roots).classes t) i = representative (f.classes t) i :=
    fun i => representative_congr (hclass i)
  have hclasses := hf.classes_reroot (t := t) hcheck hnum hnames hperm
  refine ⟨_, _, f.merge_eq ht, (f.reroot roots).merge_eq ht, rfl, ?_, hrep, nodes_quotient_reroot hclass, ?_, ?_, ?_⟩
  · exact List.map_congr_left fun r _ => hrep r
  · refine reported_eq_of_perm hclasses fun c hc d hd hname => ?_
    have hm := representative_mem hc
    have hm' := representative_mem hd
    have hsame := hnames _ (hf.mem_walk_of_mem_members hc hm) _ (hf.mem_walk_of_mem_members hd hm') hname
    exact hf.class_unique hc hd hm (hsame ▸ hm')
  · exact (hf.walk_reroot hperm).length_eq
  · change ((f.reroot roots).quotient t).count = (f.quotient t).count
    rw [(hf.reroot hperm).count_quotient, hf.count_quotient, hclasses.length_eq]

/-- The forest with shared nodes is merged alike when the statement that stands once among its roots comes first. -/
theorem merge_reroot_shared : ∃ m m', sharedExample.merge 0.05 = .ok m ∧ (sharedExample.reroot [4, 3, 3]).merge 0.05 = .ok m' ∧
    m'.forest.nodes = m.forest.nodes ∧ m'.classes = m.classes ∧ m'.before = m.before ∧ m'.after = m.after := by
  have hperm : [4, 3, 3].Perm sharedExample.roots := by decide
  obtain ⟨hf, hcheck, hnames, _⟩ := sharedExample_spec
  have hnum : sharedExample.LeavesNumbers := fun i hi hnil =>
    Binary64.ne_nan_of_isFinite (leavesFinite_sharedExample i hi hnil)
  have ht : (0.05 : Binary64).inUnit = true := Binary64.inUnit_ofScientific (by decide)
  obtain ⟨m, m', hm, hm', _, _, _, hrest⟩ := merge_reroot hf hcheck hnum hnames (isTolerance_of_inUnit ht) hperm
  exact ⟨m, m', hm, hm', hrest⟩

/-- Three leaves that say the same, of which one has a confidence that is not a number. -/
def notNumberExample : Forest where
  nodes := #[
    ⟨⟨"a", .terminal, "x", .declare, 0.3, none, some ⟨"a", .terminal, "x", "name", .identifier, 1, none, none, none⟩⟩, [], 0⟩,
    ⟨⟨"b", .terminal, "x", .declare, 0.5, none, some ⟨"b", .terminal, "x", "name", .identifier, 1, none, none, none⟩⟩, [], 0⟩,
    ⟨⟨"c", .terminal, "x", .declare, .nan, none, some ⟨"c", .terminal, "x", "name", .identifier, 1, none, none, none⟩⟩, [], 0⟩]
  roots := [0, 1, 2]

/-- Beside a confidence that is not a number the order of the roots matters: with the first leaf moved to the end, the leaf that is
not a number comes between the other two, and the first leaf and the second one are not merged. -/
theorem notNumber_depends_on_roots : notNumberExample.WellFormed ∧ notNumberExample.Checked ∧ notNumberExample.DistinctNames ∧
    Config.isTolerance 0.5 = true ∧ [1, 2, 0].Perm notNumberExample.roots ∧
    ∃ m m', notNumberExample.merge 0.5 = .ok m ∧ (notNumberExample.reroot [1, 2, 0]).merge 0.5 = .ok m' ∧
      m.after = 2 ∧ m'.after = 3 := by
  have ht : Config.isTolerance 0.5 = true := isTolerance_of_inUnit (Binary64.inUnit_ofScientific (by decide))
  refine ⟨by decide +kernel, by decide +kernel, by decide +kernel, ht, by decide, ?_⟩
  exact ⟨_, _, notNumberExample.merge_eq ht, (notNumberExample.reroot [1, 2, 0]).merge_eq ht, by decide +kernel, by decide +kernel⟩

end Forest

end TokenForest
