import Mathlib.Data.List.Nodup
import Mathlib.Data.List.Pairwise
import Mathlib.Data.List.Perm.Basic
import TokenForest.Proofs.Forest.Clusters
import TokenForest.Proofs.Forest.Walk
import TokenForest.Proofs.Grouping

/-!
# The classes of a forest

The classes are found level by level, each level from the classes below it. A level reads the classes of the children of its
nodes only, which are lower, so in the end every level is grouped by the finished list of classes (`classes_eq`). From this: the
classes hold every node that can be reached exactly once, and the nodes of a class have one height and one signature.
-/

namespace TokenForest

namespace Forest

variable {f : Forest} {t : Binary64}

/-! ## One level -/

/-- The nodes of the walk with this height. -/
def level (f : Forest) (n : Nat) : List Nat := f.walk.filter (fun i => decide (f.height i = n))

/-- The nodes of a level with this signature. -/
def peers (f : Forest) (classes : List MergeClass) (level : List Nat) (s : Signature) : List Nat :=
  level.filter (fun i => decide (f.signature classes i = s))

theorem mem_level {i n : Nat} : i ∈ f.level n ↔ i ∈ f.walk ∧ f.height i = n := by
  simp [level]

theorem mem_peers {classes : List MergeClass} {level : List Nat} {s : Signature} {i : Nat} :
    i ∈ f.peers classes level s ↔ i ∈ level ∧ f.signature classes i = s := by
  simp [peers]

/-- The nodes on the level of a node that have its signature. -/
def peersOf (f : Forest) (classes : List MergeClass) (i : Nat) : List Nat :=
  f.peers classes (f.level (f.height i)) (f.signature classes i)

theorem mem_peersOf {classes : List MergeClass} {i j : Nat} : j ∈ f.peersOf classes i ↔
    j ∈ f.walk ∧ f.height j = f.height i ∧ f.signature classes j = f.signature classes i := by
  rw [peersOf, mem_peers, mem_level, and_assoc]

theorem peersOf_congr {classes : List MergeClass} {i j : Nat} (hheight : f.height i = f.height j)
    (hsign : f.signature classes i = f.signature classes j) : f.peersOf classes i = f.peersOf classes j := by
  rw [peersOf, peersOf, hheight, hsign]

/-- What a class made of some members holds. -/
theorem classOf_eq_some {k : List Member} {c : MergeClass} (h : classOf k = some c) :
    ∃ m rest, k = m :: rest ∧ c.representative = (Member.first m rest).node ∧ c.members = k.map (·.node) ∧
      c.confidence = (SyntaxTree.least m.confidence (rest.map (·.confidence))).roundSix := by
  cases k with
  | nil => simp [classOf] at h
  | cons m rest =>
    rw [classOf, Option.some.injEq] at h
    subst h
    exact ⟨m, rest, rfl, rfl, rfl, rfl⟩

theorem flatMap_members_classOf (ks : List (List Member)) :
    (ks.filterMap classOf).flatMap (·.members) = ks.flatten.map (·.node) := by
  induction ks with
  | nil => rfl
  | cons k ks ih =>
    cases k with
    | nil =>
      rw [List.filterMap_cons, List.flatten_cons, List.nil_append]
      exact ih
    | cons m rest => simp [classOf, ih]

/-- The classes of a level are the clusters of its peers, signature by signature. -/
theorem levelClasses_eq (f : Forest) (t : Binary64) (classes : List MergeClass) (level : List Nat) :
    f.levelClasses t classes level = (level.map (f.signature classes)).eraseDups.flatMap
      fun s => (clusters t ((f.peers classes level s).map (f.member classes))).filterMap classOf := by
  have hsigns : (level.map (fun i => (f.signature classes i, i))).map (·.1) = level.map (f.signature classes) := by
    rw [List.map_map]
    rfl
  rw [levelClasses, hsigns]
  congr 1
  funext s
  rw [List.filter_map, List.map_map]
  rfl

/-- The classes of a level hold every node of the level as often as the level does. -/
theorem levelClasses_perm (f : Forest) (t : Binary64) (classes : List MergeClass) (level : List Nat) :
    ((f.levelClasses t classes level).flatMap (·.members)).Perm level := by
  have hnodes : ∀ s, (((clusters t ((f.peers classes level s).map (f.member classes))).filterMap classOf).flatMap
      (·.members)).Perm (f.peers classes level s) := by
    intro s
    rw [flatMap_members_classOf]
    have h := (clusters_perm t ((f.peers classes level s).map (f.member classes))).map (·.node)
    rw [List.map_map] at h
    simpa [Function.comp_def, member] using h
  rw [levelClasses_eq, List.flatMap_assoc]
  exact (List.Perm.flatMap_left _ (fun s _ => hnodes s)).trans (Grouping.flatMap_groups_perm _ level)

/-- Every class of a level is a cluster of peers. -/
theorem exists_cluster_of_mem_levelClasses {classes : List MergeClass} {level : List Nat} {c : MergeClass}
    (h : c ∈ f.levelClasses t classes level) :
    ∃ s, ∃ k ∈ clusters t ((f.peers classes level s).map (f.member classes)), classOf k = some c := by
  rw [levelClasses_eq, List.mem_flatMap] at h
  obtain ⟨s, _, hc⟩ := h
  obtain ⟨k, hk, hkc⟩ := List.mem_filterMap.1 hc
  exact ⟨s, k, hk, hkc⟩

theorem mem_level_of_mem_members {classes : List MergeClass} {level : List Nat} {c : MergeClass}
    (h : c ∈ f.levelClasses t classes level) {i : Nat} (hi : i ∈ c.members) : i ∈ level :=
  (levelClasses_perm f t classes level).mem_iff.1 (List.mem_flatMap.2 ⟨c, h, hi⟩)

/-! ## Reading classes -/

theorem class?_append (a b : List MergeClass) (i : Nat) : class? (a ++ b) i = (class? a i).or (class? b i) := by
  rw [class?, class?, class?, List.find?_append]

/-- Classes that do not hold a node do not change what is read for it. -/
theorem class?_append_of_forall {a b : List MergeClass} {i : Nat} (h : ∀ c ∈ b, i ∉ c.members) :
    class? (a ++ b) i = class? a i := by
  have hnone : class? b i = none := by
    rw [class?, List.find?_eq_none]
    intro c hc
    simpa using h c hc
  rw [class?_append, hnone, Option.or_none]

theorem representative_congr {a b : List MergeClass} {i : Nat} (h : class? a i = class? b i) :
    representative a i = representative b i := by
  rw [representative, representative, h]

/-- The signature of a node is read from the classes of its children. -/
theorem signature_congr {a b : List MergeClass} {i : Nat} (h : ∀ c ∈ f.children i, class? a c = class? b c) :
    f.signature a i = f.signature b i := by
  have hmap : (f.children i).map (representative a) = (f.children i).map (representative b) :=
    List.map_congr_left (fun c hc => representative_congr (h c hc))
  simp only [signature, hmap]

/-- The member that a node is on its level is read from the classes of its children. -/
theorem member_congr {a b : List MergeClass} {i : Nat} (h : ∀ c ∈ f.children i, class? a c = class? b c) :
    f.member a i = f.member b i := by
  have hmap : (f.children i).map (fun c => ((class? a c).map (·.confidence)).getD (f.confidence c)) =
      (f.children i).map (fun c => ((class? b c).map (·.confidence)).getD (f.confidence c)) :=
    List.map_congr_left (fun c hc => by rw [h c hc])
  simp only [member, mergedConfidence, hmap]

/-- The classes of a level are read from the classes of the children of its nodes. -/
theorem levelClasses_congr {a b : List MergeClass} {level : List Nat}
    (h : ∀ i ∈ level, ∀ c ∈ f.children i, class? a c = class? b c) :
    f.levelClasses t a level = f.levelClasses t b level := by
  have hsign : ∀ i ∈ level, f.signature a i = f.signature b i := fun i hi => signature_congr (h i hi)
  have hpeers : ∀ s, f.peers a level s = f.peers b level s := by
    intro s
    apply List.filter_congr
    intro i hi
    rw [hsign i hi]
  rw [levelClasses_eq, levelClasses_eq, List.map_congr_left hsign]
  congr 1
  funext s
  rw [hpeers s, List.map_congr_left (fun i hi => member_congr (h i (mem_peers.1 hi).1))]

/-! ## All levels -/

/-- The classes of the nodes below a height. -/
def classesBelow (f : Forest) (t : Binary64) (n : Nat) : List MergeClass :=
  ((List.range n).map f.level).foldl (fun done level => done ++ f.levelClasses t done level) []

theorem classesBelow_succ (f : Forest) (t : Binary64) (n : Nat) :
    f.classesBelow t (n + 1) = f.classesBelow t n ++ f.levelClasses t (f.classesBelow t n) (f.level n) := by
  rw [classesBelow, List.range_succ, List.map_append, List.foldl_append]
  rfl

/-- The number of levels. -/
def levelCount (f : Forest) : Nat := heightOver (f.walk.map f.height)

/-- Higher levels add classes of higher nodes only. -/
theorem classesBelow_add (f : Forest) (t : Binary64) (n k : Nat) :
    ∃ added, f.classesBelow t (n + k) = f.classesBelow t n ++ added ∧ ∀ c ∈ added, ∀ i ∈ c.members, n ≤ f.height i := by
  induction k with
  | zero => exact ⟨[], by simp, by simp⟩
  | succ k ih =>
    obtain ⟨added, heq, hadded⟩ := ih
    refine ⟨added ++ f.levelClasses t (f.classesBelow t (n + k)) (f.level (n + k)), ?_, ?_⟩
    · rw [← Nat.add_assoc, classesBelow_succ, ← List.append_assoc, ← heq]
    · intro c hc i hi
      rcases List.mem_append.1 hc with hc | hc
      · exact hadded c hc i hi
      · have := (mem_level.1 (mem_level_of_mem_members hc hi)).2
        omega

/-- The class of a node is settled once its level is done. -/
theorem class?_classesBelow {n m i : Nat} (hi : f.height i < n) (hnm : n ≤ m) :
    class? (f.classesBelow t m) i = class? (f.classesBelow t n) i := by
  obtain ⟨k, rfl⟩ := Nat.exists_eq_add_of_le hnm
  obtain ⟨added, heq, hadded⟩ := classesBelow_add f t n k
  rw [heq]
  apply class?_append_of_forall
  intro c hc hm
  have := hadded c hc i hm
  omega

/-- The classes of each level are those that the finished list of classes gives. -/
theorem WellFormed.classesBelow_eq (hf : f.WellFormed) {n m : Nat} (hnm : n ≤ m) :
    f.classesBelow t n = (List.range n).flatMap (fun k => f.levelClasses t (f.classesBelow t m) (f.level k)) := by
  induction n with
  | zero => rfl
  | succ n ih =>
    rw [classesBelow_succ, List.range_succ, List.flatMap_append, ← ih (by omega), List.flatMap_singleton]
    congr 1
    apply levelClasses_congr
    intro i hi c hc
    have hlow := hf.height_child_lt hc
    rw [(mem_level.1 hi).2] at hlow
    exact (class?_classesBelow hlow (by omega)).symm

/-- The list of classes describes itself: it is made of the classes of the levels as the list itself gives them. -/
theorem WellFormed.classes_eq (hf : f.WellFormed) (t : Binary64) :
    f.classes t = (List.range f.levelCount).flatMap (fun n => f.levelClasses t (f.classes t) (f.level n)) :=
  hf.classesBelow_eq (Nat.le_refl _)

/-- The levels put one after the other hold every node of the walk once. -/
theorem flatMap_level_perm (f : Forest) : ((List.range f.levelCount).flatMap f.level).Perm f.walk :=
  Grouping.flatMap_range_perm (fun _ hi => lt_heightOver (List.mem_map_of_mem hi))

/-- The classes hold every node that can be reached exactly once. -/
theorem WellFormed.flatMap_members_perm (hf : f.WellFormed) (t : Binary64) :
    ((f.classes t).flatMap (·.members)).Perm f.walk := by
  have heq : (f.classes t).flatMap (·.members) = (List.range f.levelCount).flatMap
      (fun n => (f.levelClasses t (f.classes t) (f.level n)).flatMap (·.members)) := by
    rw [← List.flatMap_assoc, ← hf.classes_eq t]
  rw [heq]
  exact (List.Perm.flatMap_left _ (fun n _ => levelClasses_perm f t (f.classes t) (f.level n))).trans (flatMap_level_perm f)

/-! ## The class of a node -/

theorem WellFormed.mem_walk_of_mem_members (hf : f.WellFormed) {c : MergeClass} (hc : c ∈ f.classes t) {i : Nat}
    (hi : i ∈ c.members) : i ∈ f.walk :=
  (hf.flatMap_members_perm t).mem_iff.1 (List.mem_flatMap.2 ⟨c, hc, hi⟩)

/-- Two classes that share a node are one. -/
theorem WellFormed.class_unique (hf : f.WellFormed) {c c' : MergeClass} (hc : c ∈ f.classes t) (hc' : c' ∈ f.classes t)
    {i : Nat} (hi : i ∈ c.members) (hi' : i ∈ c'.members) : c = c' := by
  have hnodup := (hf.flatMap_members_perm t).nodup_iff.2 hf.nodup_walk
  rw [List.nodup_flatMap] at hnodup
  by_contra hne
  have hsymm : Std.Symm (Function.onFun List.Disjoint (fun c : MergeClass => c.members)) :=
    ⟨fun _ _ h _ ha hb => h hb ha⟩
  exact hnodup.2.forall hc hc' hne hi hi'

/-- The class read for a node is the class that holds it. -/
theorem WellFormed.class?_eq_some_iff (hf : f.WellFormed) {i : Nat} {c : MergeClass} :
    class? (f.classes t) i = some c ↔ c ∈ f.classes t ∧ i ∈ c.members := by
  constructor
  · intro h
    exact ⟨List.mem_of_find?_eq_some h, by simpa using List.find?_some h⟩
  · rintro ⟨hc, hi⟩
    cases h : class? (f.classes t) i with
    | none =>
      rw [class?, List.find?_eq_none] at h
      exact absurd hi (by simpa using h c hc)
    | some c' =>
      have hmem : c' ∈ f.classes t := List.mem_of_find?_eq_some h
      have hi' : i ∈ c'.members := by simpa using List.find?_some h
      rw [hf.class_unique hc hmem hi hi']

/-- Every node that can be reached has a class. -/
theorem WellFormed.exists_class (hf : f.WellFormed) {i : Nat} (hi : i ∈ f.walk) :
    ∃ c ∈ f.classes t, i ∈ c.members ∧ class? (f.classes t) i = some c := by
  obtain ⟨c, hc, hm⟩ := List.mem_flatMap.1 ((hf.flatMap_members_perm t).mem_iff.2 hi)
  exact ⟨c, hc, hm, hf.class?_eq_some_iff.2 ⟨hc, hm⟩⟩

/-- A node that cannot be reached has no class and represents itself. -/
theorem WellFormed.class?_eq_none (hf : f.WellFormed) {i : Nat} (hi : i ∉ f.walk) : class? (f.classes t) i = none := by
  cases h : class? (f.classes t) i with
  | none => rfl
  | some c =>
    obtain ⟨hc, hm⟩ := hf.class?_eq_some_iff.1 h
    exact absurd (hf.mem_walk_of_mem_members hc hm) hi

/-- Every class is a cluster of peers on one level. -/
theorem WellFormed.exists_cluster (hf : f.WellFormed) {c : MergeClass} (hc : c ∈ f.classes t) :
    ∃ n s, ∃ k ∈ clusters t ((f.peers (f.classes t) (f.level n) s).map (f.member (f.classes t))), classOf k = some c := by
  rw [hf.classes_eq t, List.mem_flatMap] at hc
  obtain ⟨n, _, hc⟩ := hc
  obtain ⟨s, k, hk, hkc⟩ := exists_cluster_of_mem_levelClasses hc
  exact ⟨n, s, k, hk, hkc⟩

/-- The members of a cluster of peers are members that peers are on their level. -/
theorem exists_of_mem_cluster {classes : List MergeClass} {nodes : List Nat} {k : List Member}
    (hk : k ∈ clusters t (nodes.map (f.member classes))) {m : Member} (hm : m ∈ k) :
    ∃ i ∈ nodes, f.member classes i = m :=
  List.mem_map.1 (mem_of_mem_cluster hk hm)

theorem mem_peers_of_mem_members {classes : List MergeClass} {level : List Nat} {s : Signature} {k : List Member}
    (hk : k ∈ clusters t ((f.peers classes level s).map (f.member classes))) {c : MergeClass} (hkc : classOf k = some c)
    {i : Nat} (hi : i ∈ c.members) : i ∈ f.peers classes level s := by
  obtain ⟨m, rest, _, _, hmem, _⟩ := classOf_eq_some hkc
  rw [hmem, List.mem_map] at hi
  obtain ⟨x, hx, rfl⟩ := hi
  obtain ⟨j, hj, rfl⟩ := exists_of_mem_cluster hk hx
  exact hj

/-- The nodes of a class have one height and one signature. -/
theorem WellFormed.class_agrees (hf : f.WellFormed) {c : MergeClass} (hc : c ∈ f.classes t) {i j : Nat}
    (hi : i ∈ c.members) (hj : j ∈ c.members) :
    f.height i = f.height j ∧ f.signature (f.classes t) i = f.signature (f.classes t) j := by
  obtain ⟨n, s, k, hk, hkc⟩ := hf.exists_cluster hc
  have hi' := mem_peers.1 (mem_peers_of_mem_members hk hkc hi)
  have hj' := mem_peers.1 (mem_peers_of_mem_members hk hkc hj)
  exact ⟨(mem_level.1 hi'.1).2.trans (mem_level.1 hj'.1).2.symm, hi'.2.trans hj'.2.symm⟩

/-- A class is represented by one of its members, whatever the forest is. -/
theorem representative_mem {c : MergeClass} (hc : c ∈ f.classes t) : c.representative ∈ c.members := by
  have hlevels : ∀ (levels : List (List Nat)) (done : List MergeClass), (∀ c ∈ done, c.representative ∈ c.members) →
      ∀ c ∈ levels.foldl (fun done level => done ++ f.levelClasses t done level) done, c.representative ∈ c.members := by
    intro levels
    induction levels with
    | nil => exact fun _ hdone => hdone
    | cons level levels ih =>
      intro done hdone
      refine ih _ fun c hc => ?_
      rcases List.mem_append.1 hc with hc | hc
      · exact hdone c hc
      · obtain ⟨_, _, _, hkc⟩ := exists_cluster_of_mem_levelClasses hc
        obtain ⟨m, rest, hk, hrep, hmem, _⟩ := classOf_eq_some hkc
        rw [hmem, hrep, hk]
        exact List.mem_map_of_mem (Member.first_mem m rest)
  exact hlevels f.levels [] (by simp) c hc

theorem representative_eq {classes : List MergeClass} {i : Nat} {c : MergeClass} (h : class? classes i = some c) :
    representative classes i = c.representative := by
  rw [representative, h]
  rfl

theorem representative_eq_self {classes : List MergeClass} {i : Nat} (h : class? classes i = none) :
    representative classes i = i := by
  rw [representative, h]
  rfl

/-- The representative of a node has its height. -/
theorem WellFormed.height_representative (hf : f.WellFormed) (t : Binary64) (i : Nat) :
    f.height (representative (f.classes t) i) = f.height i := by
  cases h : class? (f.classes t) i with
  | none => rw [representative_eq_self h]
  | some c =>
    obtain ⟨hc, hi⟩ := hf.class?_eq_some_iff.1 h
    rw [representative_eq h]
    exact (hf.class_agrees hc (representative_mem hc) hi).1

/-- The representative of a node that can be reached can be reached, and has the signature of the node. -/
theorem WellFormed.representative_spec (hf : f.WellFormed) (t : Binary64) {i : Nat} (hi : i ∈ f.walk) :
    representative (f.classes t) i ∈ f.walk ∧
      f.signature (f.classes t) (representative (f.classes t) i) = f.signature (f.classes t) i := by
  obtain ⟨c, hc, hm, hclass⟩ := hf.exists_class (t := t) hi
  have hrep := representative_mem hc
  rw [representative_eq hclass]
  exact ⟨hf.mem_walk_of_mem_members hc hrep, (hf.class_agrees hc hrep hm).2⟩

end Forest

end TokenForest
