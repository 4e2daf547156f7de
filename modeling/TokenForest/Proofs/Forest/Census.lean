import TokenForest.Proofs.Forest.Equivalence

/-!
# Counting what merging leaves

Every class leaves one node in the merged forest, its representative, which can still be reached. So the merged forest has as many
nodes as there are classes of equivalent nodes, and a class saves all its nodes but one.
-/

namespace TokenForest

namespace Forest

variable {f : Forest} {t : Binary64}

/-! ## Representatives -/

/-- The children of a representative are the representatives of the children of every node that it represents. -/
theorem WellFormed.children_representative (hf : f.WellFormed) (t : Binary64) {i : Nat} (hi : i ∈ f.walk) :
    (f.quotient t).children (representative (f.classes t) i) = (f.children i).map (representative (f.classes t)) := by
  obtain ⟨hrep, hsign⟩ := hf.representative_spec t hi
  rw [hf.children_quotient t hrep]
  exact (content_eq_iff.1 hsign).2

/-- The representative of a node that can be reached can be reached in the merged forest. -/
theorem WellFormed.representative_mem_walk_quotient (hf : f.WellFormed) (t : Binary64) {i : Nat} (hi : i ∈ f.walk) :
    representative (f.classes t) i ∈ (f.quotient t).walk := by
  have hg := hf.quotient t
  have hreach := (hf.mem_walk_iff i).1 hi
  induction hreach with
  | root hr =>
    apply hg.root_mem_walk
    rw [roots_quotient]
    exact List.mem_map_of_mem hr
  | child h hc ih =>
    rename_i i c
    have hiw : i ∈ f.walk := (hf.mem_walk_iff i).2 h
    apply hg.child_mem_walk (ih hiw)
    rw [hf.children_representative t hiw]
    exact List.mem_map_of_mem hc

/-- The nodes of the merged forest are the representatives of the nodes before. -/
theorem WellFormed.mem_walk_quotient_iff (hf : f.WellFormed) (t : Binary64) (r : Nat) :
    r ∈ (f.quotient t).walk ↔ ∃ i ∈ f.walk, representative (f.classes t) i = r := by
  constructor
  · intro hr
    obtain ⟨c, _, _, hclass, hrep⟩ := hf.class_of_mem_walk_quotient hr
    exact ⟨r, hf.mem_walk_of_mem_walk_quotient hr, (representative_eq hclass).trans hrep⟩
  · rintro ⟨i, hi, rfl⟩
    exact hf.representative_mem_walk_quotient t hi

/-- A node of the merged forest represents itself. -/
theorem WellFormed.representative_of_mem_walk_quotient (hf : f.WellFormed) {r : Nat} (hr : r ∈ (f.quotient t).walk) :
    representative (f.classes t) r = r := by
  obtain ⟨c, _, _, hclass, hrep⟩ := hf.class_of_mem_walk_quotient hr
  exact (representative_eq hclass).trans hrep

/-- The merged forest has one node for each class. -/
theorem WellFormed.map_representative_perm (hf : f.WellFormed) (t : Binary64) :
    ((f.classes t).map (·.representative)).Perm (f.quotient t).walk := by
  have hnodup : ((f.classes t).map (·.representative)).Nodup := by
    have hmembers := (hf.flatMap_members_perm t).nodup_iff.2 hf.nodup_walk
    rw [List.nodup_flatMap] at hmembers
    unfold List.Nodup
    rw [List.pairwise_map]
    refine hmembers.2.imp_of_mem ?_
    intro c c' hc hc' hdisjoint hrep
    exact hdisjoint (representative_mem hc) (hrep ▸ representative_mem hc')
  rw [List.perm_ext_iff_of_nodup hnodup (hf.quotient t).nodup_walk]
  intro r
  rw [List.mem_map, hf.mem_walk_quotient_iff t r]
  constructor
  · rintro ⟨c, hc, rfl⟩
    have hm := representative_mem hc
    exact ⟨c.representative, hf.mem_walk_of_mem_members hc hm, representative_eq (hf.class?_eq_some_iff.2 ⟨hc, hm⟩)⟩
  · rintro ⟨i, hi, rfl⟩
    obtain ⟨c, hc, _, hclass⟩ := hf.exists_class (t := t) hi
    exact ⟨c, hc, (representative_eq hclass).symm⟩

/-! ## Numbers of nodes -/

theorem WellFormed.count_quotient (hf : f.WellFormed) (t : Binary64) : (f.quotient t).count = (f.classes t).length := by
  have hlen := (hf.map_representative_perm t).length_eq
  rw [List.length_map] at hlen
  exact hlen.symm

/-- The merged forest has as many nodes as there are classes of equivalent nodes. -/
theorem WellFormed.ncard_equivalents (hf : f.WellFormed) (hcheck : f.Checked) (hleaf : f.LeavesFinite)
    (ht : Config.isTolerance t = true) : {C | ∃ i ∈ f.walk, C = f.equivalents t i}.ncard = (f.quotient t).count := by
  have hiff : ∀ i ∈ f.walk, ∀ j ∈ f.walk,
      (representative (f.classes t) i = representative (f.classes t) j ↔ f.Equivalent t i j) :=
    fun i hi j hj => hf.representative_eq_iff_equivalent hcheck hleaf ht hi hj
  have hsame : ∀ i ∈ f.walk, ∀ j ∈ f.walk, representative (f.classes t) i = representative (f.classes t) j →
      f.equivalents t i = f.equivalents t j := by
    intro i hi j hj hrep
    ext x
    constructor
    · rintro ⟨hx, hix⟩
      exact ⟨hx, (hiff j hj x hx).1 (hrep.symm.trans ((hiff i hi x hx).2 hix))⟩
    · rintro ⟨hx, hjx⟩
      exact ⟨hx, (hiff i hi x hx).1 (hrep.trans ((hiff j hj x hx).2 hjx))⟩
  have himage : {C | ∃ i ∈ f.walk, C = f.equivalents t i} = f.equivalents t '' {r | r ∈ (f.quotient t).walk} := by
    ext C
    constructor
    · rintro ⟨i, hi, rfl⟩
      have hr := hf.representative_mem_walk_quotient t hi
      exact ⟨_, hr, hsame _ (hf.mem_walk_of_mem_walk_quotient hr) i hi (hf.representative_of_mem_walk_quotient hr)⟩
    · rintro ⟨r, hr, rfl⟩
      exact ⟨r, hf.mem_walk_of_mem_walk_quotient hr, rfl⟩
  have hinj : Set.InjOn (f.equivalents t) {r | r ∈ (f.quotient t).walk} := by
    intro r hr s hs heq
    have hrw := hf.mem_walk_of_mem_walk_quotient hr
    have hsw := hf.mem_walk_of_mem_walk_quotient hs
    have hmem : s ∈ f.equivalents t r := heq ▸ ⟨hsw, (hiff s hsw s hsw).1 rfl⟩
    rw [← hf.representative_of_mem_walk_quotient hr, ← hf.representative_of_mem_walk_quotient hs]
    exact (hiff r hrw s hsw).2 hmem.2
  have hset : {r | r ∈ (f.quotient t).walk} = ((f.quotient t).walk.toFinset : Set Nat) := by
    ext r
    simp
  rw [himage, hinj.ncard_image, hset, Set.ncard_coe_finset, List.toFinset_card_of_nodup (hf.quotient t).nodup_walk]
  rfl

/-- The classes of more than one node account for all nodes but one of each class. -/
theorem length_flatMap_members {cs : List MergeClass} (h : ∀ c ∈ cs, c.representative ∈ c.members) :
    ((cs.flatMap (·.members)).length : Int) - (cs.length : Int) =
      ((cs.filter (fun c => decide (1 < c.members.length))).map (fun c => (c.members.length : Int) - 1)).sum := by
  induction cs with
  | nil => rfl
  | cons c cs ih =>
    have hc : 0 < c.members.length := List.length_pos_of_mem (h c (by simp))
    have hcs := ih (fun x hx => h x (by simp [hx]))
    rw [List.flatMap_cons, List.length_append, List.length_cons, List.filter_cons]
    split
    · rw [List.map_cons, List.sum_cons, ← hcs]
      omega
    · rename_i hone
      rw [decide_eq_true_iff] at hone
      rw [← hcs]
      omega

/-- Merging saves every node of a reported class but one. -/
theorem WellFormed.saved_eq (hf : f.WellFormed) (t : Binary64) : (f.count : Int) - ((f.quotient t).count : Int) =
    ((f.reported (f.classes t)).map (fun c => (c.members.length : Int) - 1)).sum := by
  have hbefore : f.count = ((f.classes t).flatMap (·.members)).length := (hf.flatMap_members_perm t).length_eq.symm
  have hreported : (f.reported (f.classes t)).map (fun c => (c.members.length : Int) - 1) |>.Perm
      (((f.classes t).filter (fun c => decide (1 < c.members.length))).map (fun c => (c.members.length : Int) - 1)) := by
    unfold reported
    refine ((List.mergeSort_perm _ _).map _).trans (List.Perm.of_eq ?_)
    rw [List.map_map]
    apply List.map_congr_left
    intro c _
    simp [nameClass, List.length_mergeSort]
  rw [hbefore, hf.count_quotient, length_flatMap_members (fun _ hc => representative_mem hc), hreported.sum_eq]

/-! ## What merging merges -/

/-- Merging a forest without cycles under a finite tolerance, over finite confidences of its leaves, succeeds and puts the
representatives of nodes in their places; two nodes have one representative exactly when they are equivalent, the nodes that are
left are as many as the classes of equivalent nodes, and every reported class has saved all its nodes but one. -/
theorem merge_merges_equivalent (hf : f.WellFormed) (hcheck : f.Checked) (hleaf : f.LeavesFinite)
    (ht : Config.isTolerance t = true) :
    ∃ m, f.merge t = .ok m ∧ m.forest.roots = f.roots.map (representative (f.classes t)) ∧
      (∀ i ∈ f.walk, representative (f.classes t) i ∈ m.forest.walk ∧
        m.forest.children (representative (f.classes t) i) = (f.children i).map (representative (f.classes t))) ∧
      (∀ i ∈ f.walk, ∀ j ∈ f.walk,
        (representative (f.classes t) i = representative (f.classes t) j ↔ f.Equivalent t i j)) ∧
      m.after = {C | ∃ i ∈ f.walk, C = f.equivalents t i}.ncard ∧
      m.saved = (m.classes.map (fun c => (c.members.length : Int) - 1)).sum := by
  refine ⟨_, f.merge_eq ht, f.roots_quotient t, ?_, ?_, ?_, ?_⟩
  · intro i hi
    exact ⟨hf.representative_mem_walk_quotient t hi, hf.children_representative t hi⟩
  · intro i hi j hj
    exact hf.representative_eq_iff_equivalent hcheck hleaf ht hi hj
  · exact (hf.ncard_equivalents hcheck hleaf ht).symm
  · exact hf.saved_eq t

/-- In the forest with shared nodes the two close leaves and the two statements over them are merged. -/
theorem merge_merges_equivalent_shared : ∃ m, sharedExample.merge 0.05 = .ok m ∧
    m.after = {C | ∃ i ∈ sharedExample.walk, C = sharedExample.equivalents 0.05 i}.ncard ∧
    m.saved = (m.classes.map (fun c => (c.members.length : Int) - 1)).sum := by
  obtain ⟨hf, hcheck, _, _⟩ := sharedExample_spec
  have ht : (0.05 : Binary64).inUnit = true := Binary64.inUnit_ofScientific (by decide)
  obtain ⟨m, hm, _, _, _, hafter, hsaved⟩ := merge_merges_equivalent hf hcheck leavesFinite_sharedExample (isTolerance_of_inUnit ht)
  exact ⟨m, hm, hafter, hsaved⟩

/-! ## Infinite confidences -/

/-- Over leaves of infinite confidence no two nodes are merged: the difference of two infinities is not a number, and that is
within no tolerance. -/
theorem WellFormed.representative_ne_of_infinite (hf : f.WellFormed) (hcheck : f.Checked)
    (hleaf : ∀ i ∈ f.walk, f.children i = [] → f.confidence i = .posInf) {i j : Nat} (hi : i ∈ f.walk) (hj : j ∈ f.walk)
    (hne : i ≠ j) : representative (f.classes t) i ≠ representative (f.classes t) j := by
  intro hrep
  have hround : ∀ x : Binary64, x = .posInf → x.roundSix = .posInf := by
    rintro x rfl
    rfl
  have hinf : ∀ m ∈ (f.peersOf (f.classes t) i).map (f.member (f.classes t)), m.confidence = .posInf := by
    intro m hm
    obtain ⟨x, hx, rfl⟩ := List.mem_map.1 hm
    exact hf.forall_mergedConfidence hcheck hround hleaf t (mem_peersOf.1 hx).1
  have hexceeds : ∀ a ∈ (f.peersOf (f.classes t) i).map (f.member (f.classes t)),
      ∀ b ∈ (f.peersOf (f.classes t) i).map (f.member (f.classes t)), Exceeds t a.confidence b.confidence := by
    intro a ha b hb
    rw [hinf a ha, hinf b hb]
    intro hle
    exact ((Binary64.le_iff _ _).1 hle).1 rfl
  obtain ⟨k, hk, hik, hjk⟩ := (hf.representative_eq_iff t hi hj).1 hrep
  have hperm := Member.arrange_perm ((f.peersOf (f.classes t) i).map (f.member (f.classes t)))
  unfold clusters at hk
  split at hk
  · simp at hk
  · rename_i m rest harr
    rw [harr] at hperm
    have hpair : (m :: rest).Pairwise (fun a b => Exceeds t a.confidence b.confidence) :=
      List.pairwise_of_forall_mem_list (fun a ha b hb => hexceeds a (hperm.mem_iff.1 ha) b (hperm.mem_iff.1 hb))
    rw [splitFrom_singletons hpair, List.mem_map] at hk
    obtain ⟨x, _, rfl⟩ := hk
    rw [List.mem_singleton] at hik hjk
    exact hne (congrArg Member.node (hik.trans hjk.symm))

/-- Two statements over one leaf of infinite confidence. -/
def unboundedExample : Forest where
  nodes := #[
    ⟨⟨"a", .terminal, "x", .declare, .posInf, none, some ⟨"a", .terminal, "x", "name", .identifier, 1, none, none, none⟩⟩, [], 0⟩,
    ⟨⟨"b", .nonterminal, "row", .assign, 0.9, none, none⟩, [0], 1⟩,
    ⟨⟨"c", .nonterminal, "row", .assign, 0.9, none, none⟩, [0], 1⟩]
  roots := [1, 2]

/-- The two statements are equivalent and are not merged; and an infinite tolerance is refused. -/
theorem unbounded_not_merged : unboundedExample.WellFormed ∧ unboundedExample.Checked ∧
    Config.isTolerance 0.05 = true ∧ 1 ∈ unboundedExample.walk ∧ 2 ∈ unboundedExample.walk ∧
    unboundedExample.Equivalent 0.05 1 2 ∧
    representative (unboundedExample.classes 0.05) 1 ≠ representative (unboundedExample.classes 0.05) 2 ∧
    unboundedExample.merge .posInf = .error (.config .mergeTolerance) := by
  have hf : unboundedExample.WellFormed := by decide +kernel
  have hcheck : unboundedExample.Checked := by decide +kernel
  have hleaf : ∀ i ∈ unboundedExample.walk, unboundedExample.children i = [] → unboundedExample.confidence i = .posInf := by
    decide +kernel
  have h1 : 1 ∈ unboundedExample.walk := by decide +kernel
  have h2 : 2 ∈ unboundedExample.walk := by decide +kernel
  have htogether : unboundedExample.Together 0.05 0 0 := by
    have hlike : (unboundedExample.leavesLike 0).map unboundedExample.value = [.posInf] := by decide +kernel
    have hscan : scan 0.05 (ascending [.posInf]) = [[.posInf]] := by
      rw [ascending, List.mergeSort_singleton, scan_cons, List.takeWhile_nil, List.dropWhile_nil, scan]
    have hvalue : unboundedExample.value 0 = .posInf := rfl
    unfold Together
    rw [hlike, hscan, hvalue]
    exact ⟨[.posInf], by simp, by simp, by simp⟩
  have hequiv : unboundedExample.Equivalent 0.05 1 2 :=
    .inner (by decide) (by decide) rfl (.cons (.leaf rfl rfl rfl htogether) .nil)
  refine ⟨hf, hcheck, by decide +kernel, h1, h2, hequiv, ?_, rfl⟩
  exact hf.representative_ne_of_infinite hcheck hleaf h1 h2 (by omega)

end Forest

end TokenForest
