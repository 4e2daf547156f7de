import TokenForest.Proofs.Forest.Merged
import TokenForest.Proofs.Forest.Settled

/-!
# Merging twice

Every node of a merged forest represents its class, and its confidence is the lowest of the class. Two of them with one
signature come from different clusters of one list of peers, so their confidences lie further apart than the tolerance, and
merging once more, under this tolerance or a smaller one, finds every node alone in its class.
-/

namespace TokenForest

namespace Forest

variable {f : Forest} {t : Binary64}

/-! ## Nodes of the merged forest -/

/-- Every node of a merged forest could be reached before, and it represents its class. -/
theorem WellFormed.class_of_mem_walk_quotient (hf : f.WellFormed) {i : Nat} (hi : i ∈ (f.quotient t).walk) :
    ∃ c ∈ f.classes t, i ∈ c.members ∧ class? (f.classes t) i = some c ∧ c.representative = i := by
  have hrep : ∀ j ∈ f.walk, ∃ c ∈ f.classes t, representative (f.classes t) j ∈ c.members ∧
      class? (f.classes t) (representative (f.classes t) j) = some c ∧
      c.representative = representative (f.classes t) j := by
    intro j hj
    obtain ⟨c, hc, _, hclass⟩ := hf.exists_class (t := t) hj
    rw [representative_eq hclass]
    have hm := representative_mem hc
    exact ⟨c, hc, hm, hf.class?_eq_some_iff.2 ⟨hc, hm⟩, rfl⟩
  have hreach := ((hf.quotient t).mem_walk_iff i).1 hi
  induction hreach with
  | root hr =>
    rw [roots_quotient, List.mem_map] at hr
    obtain ⟨r, hr, rfl⟩ := hr
    exact hrep r (hf.root_mem_walk hr)
  | child hj hc ih =>
    obtain ⟨c, hcls, hm, _⟩ := ih (((hf.quotient t).mem_walk_iff _).2 hj)
    have hw := hf.mem_walk_of_mem_members hcls hm
    rw [hf.children_quotient t hw, List.mem_map] at hc
    obtain ⟨d, hd, rfl⟩ := hc
    exact hrep d (hf.child_mem_walk hw hd)

theorem WellFormed.mem_walk_of_mem_walk_quotient (hf : f.WellFormed) {i : Nat} (hi : i ∈ (f.quotient t).walk) :
    i ∈ f.walk := by
  obtain ⟨c, hc, hm, _⟩ := hf.class_of_mem_walk_quotient hi
  exact hf.mem_walk_of_mem_members hc hm

/-- A node that represents its class has the confidence of the class. -/
theorem WellFormed.confidence_quotient (hf : f.WellFormed) {c : MergeClass} {i : Nat}
    (hclass : class? (f.classes t) i = some c) (hrep : c.representative = i) : (f.quotient t).confidence i = c.confidence := by
  rw [confidence, hf.node_quotient, mergedNode, hclass]
  simp only [hrep, if_true]

/-- The node that represents another one has the confidence of its class. -/
theorem WellFormed.confidence_representative (hf : f.WellFormed) {c : MergeClass} {i : Nat}
    (hclass : class? (f.classes t) i = some c) :
    (f.quotient t).confidence (representative (f.classes t) i) = c.confidence := by
  obtain ⟨hc, _⟩ := hf.class?_eq_some_iff.1 hclass
  rw [representative_eq hclass]
  exact hf.confidence_quotient (hf.class?_eq_some_iff.2 ⟨hc, representative_mem hc⟩) rfl

/-- The confidences that merging reads for the children of a node are those that their representatives have afterwards. -/
theorem WellFormed.childConfidences_eq (hf : f.WellFormed) (t : Binary64) {i : Nat} (hi : i ∈ f.walk) :
    (f.children i).map (fun c => ((class? (f.classes t) c).map (·.confidence)).getD (f.confidence c)) =
      ((f.children i).map (representative (f.classes t))).map (f.quotient t).confidence := by
  rw [List.map_map]
  apply List.map_congr_left
  intro c hc
  obtain ⟨cls, _, _, hclass⟩ := hf.exists_class (t := t) (hf.child_mem_walk hi hc)
  rw [Function.comp_apply, hf.confidence_representative hclass, hclass]
  rfl

/-- Over known children the confidence of an inner node does not depend on the node. -/
theorem WellFormed.mergedConfidence_eq (hf : f.WellFormed) {i : Nat} (hi : i ∈ f.walk) (own : Binary64)
    (hk : (f.node i).info.kind ≠ .terminal) (hne : f.children i ≠ []) : f.mergedConfidence (f.classes t) i =
      SyntaxTree.aggregate own (((f.children i).map (representative (f.classes t))).map (f.quotient t).confidence) := by
  rw [mergedConfidence, if_neg hk, hf.childConfidences_eq t hi]
  cases hcs : f.children i with
  | nil => exact absurd hcs hne
  | cons c cs => rfl

/-- The confidence of a node of the merged forest is the aggregate of its children's. -/
theorem WellFormed.aggregated_quotient (hf : f.WellFormed) (hcheck : f.Checked) (hleaf : f.LeavesSettled) {i : Nat}
    (hi : i ∈ (f.quotient t).walk) : (f.quotient t).aggregated i = (f.quotient t).confidence i := by
  obtain ⟨c, hc, hm, hclass, hrep⟩ := hf.class_of_mem_walk_quotient hi
  have hw := hf.mem_walk_of_mem_members hc hm
  have hkind : ((f.quotient t).node i).info.kind = (f.node i).info.kind := by rw [hf.info_quotient]
  rw [aggregated, hkind, hf.children_quotient t hw]
  split
  · rfl
  · rename_i hk
    by_cases hnil : f.children i = []
    · rw [hnil]
      rfl
    · -- the first member of the cluster has the children of `i` up to representatives, and so its confidence
      obtain ⟨_, k, hkm, _, m, hmk, hconf⟩ := hf.class_confidence hcheck hleaf hc hm
      obtain ⟨j, hj, rfl⟩ := exists_of_mem_cluster hkm (List.mem_of_mem_head? hmk)
      obtain ⟨hjw, _, hsign⟩ := mem_peersOf.1 hj
      obtain ⟨hkind', _, _, _, hchildren⟩ := Signature.mk.inj hsign
      have hnil' : f.children j ≠ [] := by
        intro hj'
        rw [hj', List.map_nil, eq_comm, List.map_eq_nil_iff] at hchildren
        exact hnil hchildren
      rw [hf.confidence_quotient hclass hrep, hconf, ← hchildren]
      exact (hf.mergedConfidence_eq hjw _ (hkind' ▸ hk) hnil').symm

/-- Two nodes of the merged forest that had one signature on one level lie further apart than the tolerance. -/
theorem WellFormed.exceeds_quotient (hf : f.WellFormed) (hcheck : f.Checked) (hleaf : f.LeavesSettled)
    (ht : Config.isTolerance t = true) {i j : Nat} (hi : i ∈ (f.quotient t).walk) (hj : j ∈ (f.quotient t).walk)
    (hheight : f.height i = f.height j) (hsign : f.signature (f.classes t) i = f.signature (f.classes t) j) (hne : i ≠ j)
    (hle : (f.quotient t).confidence i ≤ (f.quotient t).confidence j) :
    Exceeds t ((f.quotient t).confidence i) ((f.quotient t).confidence j) := by
  obtain ⟨ci, hci, hmi, hclassi, hrepi⟩ := hf.class_of_mem_walk_quotient hi
  obtain ⟨cj, hcj, hmj, hclassj, hrepj⟩ := hf.class_of_mem_walk_quotient hj
  obtain ⟨hseti, ki, hki, hkci, mi, hmki, hconfi⟩ := hf.class_confidence hcheck hleaf hci hmi
  obtain ⟨hsetj, kj, hkj, hkcj, mj, hmkj, hconfj⟩ := hf.class_confidence hcheck hleaf hcj hmj
  rw [hf.confidence_quotient hclassi hrepi, hf.confidence_quotient hclassj hrepj] at *
  rw [← peersOf_congr hheight hsign] at hkj
  have hkne : ki ≠ kj := by
    rintro rfl
    have hcc : ci = cj := Option.some.inj (hkci.symm.trans hkcj)
    exact hne (hrepi.symm.trans ((congrArg MergeClass.representative hcc).trans hrepj))
  have hset : ∀ x ∈ f.peersOf (f.classes t) i, (f.mergedConfidence (f.classes t) x).Settled :=
    fun x hx => hf.settled_mergedConfidence hcheck hleaf t (mem_peersOf.1 hx).1
  rw [hconfi, hconfj] at hle ⊢
  exact exceeds_of_mem_clusters ht (allFinite_of_settled hset) hki hkj hkne hmki hmkj hle

/-! ## Merging the merged forest -/

/-- The class that a node is by itself. -/
def alone (f : Forest) (i : Nat) : MergeClass := ⟨i, [i], f.confidence i⟩

theorem WellFormed.settled_quotient (hf : f.WellFormed) (hcheck : f.Checked) (hleaf : f.LeavesSettled) {i : Nat}
    (hi : i ∈ (f.quotient t).walk) : ((f.quotient t).confidence i).Settled := by
  obtain ⟨c, hc, hm, hclass, hrep⟩ := hf.class_of_mem_walk_quotient hi
  rw [hf.confidence_quotient hclass hrep]
  exact (hf.class_confidence hcheck hleaf hc hm).1

/-- The signature and the confidence that a node has over children that are alone in their classes are those that it has. -/
theorem alone_step {g : Forest} {classes : List MergeClass} {i : Nat}
    (h : ∀ c ∈ g.children i, class? classes c = some (g.alone c)) :
    (g.children i).map (representative classes) = g.children i ∧ g.mergedConfidence classes i = g.aggregated i := by
  have hreps : (g.children i).map (representative classes) = g.children i := by
    refine (List.map_congr_left (g := id) fun c hc => ?_).trans (List.map_id _)
    rw [representative_eq (h c hc)]
    rfl
  have hconfs : (g.children i).map (fun c => ((class? classes c).map (·.confidence)).getD (g.confidence c)) =
      (g.children i).map g.confidence := List.map_congr_left (fun c hc => by rw [h c hc]; rfl)
  exact ⟨hreps, by rw [mergedConfidence, hconfs, aggregated]⟩

/-- A node is alone in its class when it and its peers have settled confidences that lie further apart than the tolerance. -/
theorem WellFormed.alone_of_apart {g : Forest} (hg : g.WellFormed) {i : Nat} (hi : i ∈ g.walk)
    (hset : ∀ x ∈ g.peersOf (g.classes t) i, (g.mergedConfidence (g.classes t) x).Settled)
    (hapart : ∀ x ∈ g.peersOf (g.classes t) i, ∀ y ∈ g.peersOf (g.classes t) i, x ≠ y →
      g.mergedConfidence (g.classes t) x ≤ g.mergedConfidence (g.classes t) y →
      Exceeds t (g.mergedConfidence (g.classes t) x) (g.mergedConfidence (g.classes t) y)) :
    class? (g.classes t) i = some ⟨i, [i], g.mergedConfidence (g.classes t) i⟩ := by
  obtain ⟨c, hc, hm, hclass⟩ := hg.exists_class (t := t) hi
  obtain ⟨k, hk, hkc⟩ := hg.exists_cluster_of_mem hc hm
  have hnodup : ((g.peersOf (g.classes t) i).map (g.member (g.classes t))).Nodup :=
    ((hg.nodup_walk.filter _).filter _).map fun a b hab => congrArg Member.node hab
  have hexceeds : ∀ a ∈ (g.peersOf (g.classes t) i).map (g.member (g.classes t)),
      ∀ b ∈ (g.peersOf (g.classes t) i).map (g.member (g.classes t)), a ≠ b → a.confidence ≤ b.confidence →
        Exceeds t a.confidence b.confidence := by
    intro a ha b hb hne hle
    obtain ⟨x, hx, rfl⟩ := List.mem_map.1 ha
    obtain ⟨y, hy, rfl⟩ := List.mem_map.1 hb
    exact hapart x hx y hy (fun hxy => hne (by rw [hxy])) hle
  obtain ⟨m, hmem, rfl⟩ := clusters_singletons (allFinite_of_settled hset) hnodup hexceeds k hk
  obtain ⟨j, hj, rfl⟩ := List.mem_map.1 hmem
  rw [classOf, Option.some.injEq] at hkc
  subst hkc
  have hij : i = j := by simpa [member] using hm
  subst hij
  rw [hclass]
  simp only [member, List.map_nil, List.map_cons, SyntaxTree.least, List.foldl_nil, (hset i hj).2]
  rfl

/-- The nodes of a level of the merged forest that have the signatures and confidences they had are alone in their classes. -/
theorem WellFormed.alone_of_level (hf : f.WellFormed) (hcheck : f.Checked) (hleaf : f.LeavesSettled) {s : Binary64}
    (ht : Config.isTolerance t = true) (hs : Config.isTolerance s = true) (hst : s ≤ t) {n : Nat}
    (hlevel : ∀ j ∈ (f.quotient t).walk, (f.quotient t).height j = n →
      (f.quotient t).signature ((f.quotient t).classes s) j = f.signature (f.classes t) j ∧
        (f.quotient t).mergedConfidence ((f.quotient t).classes s) j = (f.quotient t).confidence j)
    {i : Nat} (hi : i ∈ (f.quotient t).walk) (hn : (f.quotient t).height i = n) :
    class? ((f.quotient t).classes s) i = some ((f.quotient t).alone i) := by
  subst hn
  have hpeer : ∀ x ∈ (f.quotient t).peersOf ((f.quotient t).classes s) i, x ∈ (f.quotient t).walk ∧
      f.height x = f.height i ∧ f.signature (f.classes t) x = f.signature (f.classes t) i ∧
      (f.quotient t).mergedConfidence ((f.quotient t).classes s) x = (f.quotient t).confidence x := by
    intro x hx
    obtain ⟨hw, hheight, hsign⟩ := mem_peersOf.1 hx
    obtain ⟨hsign', hconf⟩ := hlevel x hw hheight
    rw [hsign', (hlevel i hi rfl).1] at hsign
    rw [hf.height_quotient, hf.height_quotient] at hheight
    exact ⟨hw, hheight, hsign, hconf⟩
  rw [alone, ← (hlevel i hi rfl).2]
  apply (hf.quotient t).alone_of_apart hi
  · intro x hx
    obtain ⟨hw, _, _, hconf⟩ := hpeer x hx
    rw [hconf]
    exact hf.settled_quotient hcheck hleaf hw
  · intro x hx y hy hne hle
    obtain ⟨hxw, hxh, hxs, hxc⟩ := hpeer x hx
    obtain ⟨hyw, hyh, hys, hyc⟩ := hpeer y hy
    rw [hxc, hyc] at hle ⊢
    refine Exceeds.anti ((isTolerance_iff s).1 hs).1 ((isTolerance_iff t).1 ht).1 hst ?_
    exact hf.exceeds_quotient hcheck hleaf ht hxw hyw (hxh.trans hyh.symm) (hxs.trans hys.symm) hne hle

/-- Merging a merged forest under a tolerance that is not greater leaves every node alone in its class. -/
theorem WellFormed.class?_quotient (hf : f.WellFormed) (hcheck : f.Checked) (hleaf : f.LeavesSettled) {s : Binary64}
    (ht : Config.isTolerance t = true) (hs : Config.isTolerance s = true) (hst : s ≤ t) {i : Nat}
    (hi : i ∈ (f.quotient t).walk) : class? ((f.quotient t).classes s) i = some ((f.quotient t).alone i) := by
  have hg := hf.quotient t
  suffices h : ∀ n, ∀ i ∈ (f.quotient t).walk, (f.quotient t).height i = n →
      class? ((f.quotient t).classes s) i = some ((f.quotient t).alone i) from h _ i hi rfl
  intro n
  -- the peers of a node are anywhere on its level, so the induction is on heights and not on nodes
  induction n using Nat.strongRecOn with
  | ind n ih =>
    intro i hi hn
    refine hf.alone_of_level hcheck hleaf ht hs hst (fun j hj hjn => ?_) hi hn
    have halone : ∀ c ∈ (f.quotient t).children j, class? ((f.quotient t).classes s) c = some ((f.quotient t).alone c) := by
      intro c hc
      have := hg.height_child_lt hc
      exact ih _ (by omega) c (hg.child_mem_walk hj hc) rfl
    obtain ⟨hreps, hconf⟩ := alone_step halone
    refine ⟨?_, hconf.trans (hf.aggregated_quotient hcheck hleaf hj)⟩
    rw [signature, hreps, hf.children_quotient t (hf.mem_walk_of_mem_walk_quotient hj), hf.info_quotient]
    rfl

/-! ## Classes of one node -/

variable {g : Forest}

/-- Merging a forest of which every node is alone in its class changes nothing. -/
theorem quotient_eq_self (hg : g.WellFormed) (h : ∀ i ∈ g.walk, class? (g.classes t) i = some (g.alone i)) :
    g.quotient t = g := by
  have hrep : ∀ i ∈ g.walk, representative (g.classes t) i = i := fun i hi => representative_eq (h i hi)
  have hroots : g.roots.map (representative (g.classes t)) = g.roots :=
    (List.map_congr_left (g := id) fun r hr => hrep r (hg.root_mem_walk hr)).trans (List.map_id _)
  have hnode : ∀ i, g.mergedNode (g.classes t) i (g.node i) = g.node i := by
    intro i
    by_cases hi : i ∈ g.walk
    · have hchildren : (g.node i).children.map (representative (g.classes t)) = (g.node i).children :=
        (List.map_congr_left (g := id) fun c hc => hrep c (hg.child_mem_walk hi hc)).trans (List.map_id _)
      rw [mergedNode, h i hi]
      simp only [alone, if_true, hchildren]
      rfl
    · rw [mergedNode, hg.class?_eq_none hi]
  have hnodes : (g.quotient t).nodes = g.nodes := by
    apply Array.ext
    · exact size_quotient g t
    · intro i hi hi'
      have hn := hnode i
      simp only [node, Array.getD, hi', dif_pos] at hn
      simpa [quotient, mergeClasses] using hn
  calc g.quotient t = ⟨(g.quotient t).nodes, (g.quotient t).roots⟩ := rfl
    _ = g := by rw [hnodes, roots_quotient, hroots]

/-- A forest of which every node is alone in its class has no class to report. -/
theorem reported_eq_nil (hg : g.WellFormed) (h : ∀ i ∈ g.walk, class? (g.classes t) i = some (g.alone i)) :
    g.reported (g.classes t) = [] := by
  have hnone : (g.classes t).filter (fun c => decide (1 < c.members.length)) = [] := by
    rw [List.filter_eq_nil_iff]
    intro c hc
    have hm := representative_mem hc
    have hclass := (h _ (hg.mem_walk_of_mem_members hc hm)).symm.trans (hg.class?_eq_some_iff.2 ⟨hc, hm⟩)
    have hlength : 1 = c.members.length := congrArg (fun c => c.members.length) (Option.some.inj hclass)
    simp [← hlength]
  rw [reported, hnone, List.map_nil, List.mergeSort_nil]

/-! ## Idempotence -/

/-- Merging a merged forest again, under a tolerance that is not greater, gives the same forest, reports no class and leaves
the number of nodes as it was. -/
theorem merge_idempotent (hf : f.WellFormed) (hcheck : f.Checked) (hleaf : f.LeavesSettled) {s : Binary64}
    (ht : Config.isTolerance t = true) (hs : 0 ≤ s) (hst : s ≤ t) :
    ∃ m m', f.merge t = .ok m ∧ m.forest.merge s = .ok m' ∧ m'.forest = m.forest ∧ m'.classes = [] ∧
      m'.before = m.after ∧ m'.after = m.after := by
  have hs' : Config.isTolerance s = true := by
    rw [isTolerance_iff] at ht ⊢
    exact ⟨Binary64.isFinite_of_between Binary64.isFinite_zero ht.1 hs hst, hs⟩
  have halone : ∀ i ∈ (f.quotient t).walk, class? ((f.quotient t).classes s) i = some ((f.quotient t).alone i) :=
    fun i hi => hf.class?_quotient hcheck hleaf ht hs' hst hi
  have heq := quotient_eq_self (hf.quotient t) halone
  refine ⟨_, _, f.merge_eq ht, (f.quotient t).merge_eq hs', heq, reported_eq_nil (hf.quotient t) halone, rfl, ?_⟩
  exact congrArg count heq

/-- The forest with shared nodes does not change when it is merged a second time under a smaller tolerance. -/
theorem merge_idempotent_shared : ∃ m m', sharedExample.merge 0.05 = .ok m ∧ m.forest.merge 0.01 = .ok m' ∧
    m'.forest = m.forest ∧ m'.classes = [] ∧ m'.before = m.after ∧ m'.after = m.after := by
  obtain ⟨hf, hcheck, _, hleaf⟩ := sharedExample_spec
  have ht : (0.05 : Binary64).inUnit = true := Binary64.inUnit_ofScientific (by decide)
  have hs : (0.01 : Binary64).inUnit = true := Binary64.inUnit_ofScientific (by decide)
  exact merge_idempotent hf hcheck hleaf (isTolerance_of_inUnit ht) ((Binary64.inUnit_iff 0.01).1 hs).1
    (Binary64.ofScientific_le (by decide))

end Forest

end TokenForest
