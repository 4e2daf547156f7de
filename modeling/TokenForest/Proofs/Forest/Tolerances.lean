import Mathlib.Algebra.Order.BigOperators.Group.List
import Mathlib.Data.List.TakeWhile
import TokenForest.Proofs.Binary64.Infinite
import TokenForest.Proofs.Forest.Census

/-!
# Two tolerances

A scan under a greater tolerance may start its classes elsewhere, so leaves that a smaller tolerance merges can come apart, and with
them the nodes above: a greater tolerance can leave more nodes. It never leaves more leaves, because the scan under the greater
tolerance is never more than one class behind; and where it keeps together what the smaller one merges, no more nodes are left at all.
-/

namespace TokenForest

namespace Forest

variable {f : Forest} {s t : Binary64}

/-! ## Confidences within the tolerance -/

/-- The bound of a scan is finite. -/
theorem isFinite_add_toleranceSlack (ht : Config.isTolerance t = true) : (t + toleranceSlack).isFinite = true := by
  obtain ⟨hfin, hpos⟩ := (isTolerance_iff t).1 ht
  obtain ⟨_, _, hgreatest⟩ := toleranceSlack_spec
  have hle : t + toleranceSlack ≤ Binary64.greatest + toleranceSlack :=
    Binary64.add_le_add_right hfin Binary64.isFinite_greatest isFinite_toleranceSlack (Binary64.le_greatest hfin)
  exact Binary64.isFinite_of_between Binary64.isFinite_zero hgreatest
    (Binary64.add_nonneg hfin isFinite_toleranceSlack hpos toleranceSlack_nonneg) hle

/-- When a confidence does not exceed the tolerance over another one, whatever the two are. -/
theorem not_exceeds_iff (ht : Config.isTolerance t = true) (low high : Binary64) : ¬Exceeds t low high ↔
    low.isFinite = true ∧ high.isFinite = true ∧ high - low ≤ t + toleranceSlack ∨
      high = .negInf ∧ low ≠ .negInf ∧ low ≠ .nan ∨ low = .posInf ∧ high ≠ .posInf ∧ high ≠ .nan := by
  have hfin := isFinite_add_toleranceSlack ht
  unfold Exceeds
  rw [not_not]
  generalize t + toleranceSlack = bound at hfin
  have hbound := Binary64.units_between bound
  rw [← Binary64.rank_of_isFinite hfin] at hbound
  have hnan := Binary64.ne_nan_of_isFinite hfin
  have hle : Binary64.negInf ≤ bound := (Binary64.le_iff _ _).2 ⟨nofun, hnan, Int.le_of_lt hbound.1⟩
  have hgt : ¬Binary64.posInf ≤ bound := fun hle => absurd ((Binary64.le_iff _ _).1 hle).2.2 (Int.not_le.2 hbound.2)
  have hnone : ¬Binary64.nan ≤ bound := fun hle => ((Binary64.le_iff _ _).1 hle).1 rfl
  obtain ⟨hpospos, hnegneg, hposneg, hnegpos, hnanl, hnanr⟩ := Binary64.sub_not_finite
  -- the difference is within the bound when it is finite and small, or minus infinity
  rcases low.cases_isFinite with ⟨hl, hlpos, hlneg, hlnan⟩ | rfl | rfl | rfl
  · obtain ⟨hpos, hneg, _, _⟩ := Binary64.sub_infinite hl
    rcases high.cases_isFinite with ⟨hh, hhpos, hhneg, hhnan⟩ | rfl | rfl | rfl
    · simp [hl, hh, hhneg, hlpos]
    · simp [hpos, hgt, Binary64.isFinite, hlpos]
    · simp [hneg, hle, hlneg, hlnan]
    · simp [hnanl, hnone, Binary64.isFinite]
  · rcases high.cases_isFinite with ⟨hh, hhpos, hhneg, hhnan⟩ | rfl | rfl | rfl
    · simp [(Binary64.sub_infinite hh).2.2.1, hle, hhpos, hhnan, Binary64.isFinite]
    · simp [hpospos, hnone, Binary64.isFinite]
    · simp [hnegpos, hle]
    · simp [hnanl, hnone, Binary64.isFinite]
  · rcases high.cases_isFinite with ⟨hh, hhpos, hhneg, hhnan⟩ | rfl | rfl | rfl
    · simp [(Binary64.sub_infinite hh).2.2.2, hgt, Binary64.isFinite]
    · simp [hposneg, hgt, Binary64.isFinite]
    · simp [hnegneg, hnone, Binary64.isFinite]
    · simp [hnanl, hnone, Binary64.isFinite]
  · simp [hnanr, hnone, Binary64.isFinite]

theorem ne_nan_of_within (ht : Config.isTolerance t = true) {low x : Binary64} (h : ¬Exceeds t low x) :
    low ≠ .nan ∧ x ≠ .nan := by
  rcases (not_exceeds_iff ht _ _).1 h with ⟨hl, hx, _⟩ | ⟨rfl, _, hl⟩ | ⟨rfl, _, hx⟩
  · exact ⟨Binary64.ne_nan_of_isFinite hl, Binary64.ne_nan_of_isFinite hx⟩
  · exact ⟨hl, nofun⟩
  · exact ⟨nofun, hx⟩

/-- What is not above a confidence within the tolerance is within the tolerance, too. -/
theorem within_of_le (ht : Config.isTolerance t = true) {low x y : Binary64} (hxy : x ≤ y) (h : ¬Exceeds t low y) :
    ¬Exceeds t low x := by
  rw [not_exceeds_iff ht] at h ⊢
  have hxn := ((Binary64.le_iff _ _).1 hxy).1
  rcases h with ⟨hl, hy, hwithin⟩ | ⟨rfl, hlow⟩ | ⟨rfl, hne, _⟩
  · rcases x.cases_isFinite with ⟨hx, _⟩ | rfl | rfl | rfl
    · exact Or.inl ⟨hl, hx, Binary64.le_trans (Binary64.sub_le_sub_right hx hy hl hxy) hwithin⟩
    · rw [Binary64.eq_posInf_of_le hxy] at hy
      exact absurd hy nofun
    · refine Or.inr (Or.inl ⟨rfl, ?_, Binary64.ne_nan_of_isFinite hl⟩)
      rintro rfl
      exact absurd hl nofun
    · exact absurd rfl hxn
  · exact Or.inr (Or.inl ⟨Binary64.eq_negInf_of_le hxy, hlow⟩)
  · refine Or.inr (Or.inr ⟨rfl, ?_, hxn⟩)
    rintro rfl
    exact hne (Binary64.eq_posInf_of_le hxy)

/-- What is within the tolerance of a confidence is within the tolerance of every confidence not below that one. -/
theorem within_of_ge (ht : Config.isTolerance t = true) {low mid x : Binary64} (hle : low ≤ mid) (h : ¬Exceeds t low x) :
    ¬Exceeds t mid x := by
  rw [not_exceeds_iff ht] at h ⊢
  have hmn := ((Binary64.le_iff _ _).1 hle).2.1
  rcases h with ⟨hl, hx, hwithin⟩ | ⟨rfl, hlow, _⟩ | ⟨rfl, hne⟩
  · rcases mid.cases_isFinite with ⟨hm, _⟩ | rfl | rfl | rfl
    · rw [Binary64.le_iff_units hl hm] at hle
      exact Or.inl ⟨hm, hx, Binary64.le_trans (Binary64.sub_le_sub_of_units hx hm hx hl (by omega)) hwithin⟩
    · refine Or.inr (Or.inr ⟨rfl, ?_, Binary64.ne_nan_of_isFinite hx⟩)
      rintro rfl
      exact absurd hx nofun
    · rw [Binary64.eq_negInf_of_le hle] at hl
      exact absurd hl nofun
    · exact absurd rfl hmn
  · refine Or.inr (Or.inl ⟨rfl, ?_, hmn⟩)
    rintro rfl
    exact hlow (Binary64.eq_negInf_of_le hle)
  · exact Or.inr (Or.inr ⟨Binary64.eq_posInf_of_le hle, hne⟩)

/-! ## The scan is not behind -/

/-- Under a greater tolerance a scan makes no more classes of the same members from the same start, and at most one more from a start
that the start of the other scan lies within the tolerance of. -/
theorem length_splitFrom_le (hs : Config.isTolerance s = true) (ht : Config.isTolerance t = true) (hst : s ≤ t)
    (ms joined joined' : List Member) (low low' : Binary64) :
    ((∀ v, Exceeds t low v → Exceeds s low' v) →
        (splitFrom t low joined ms).length ≤ (splitFrom s low' joined' ms).length) ∧
      (¬Exceeds t low low' → (splitFrom t low joined ms).length ≤ (splitFrom s low' joined' ms).length + 1) := by
  have hanti : ∀ {a v : Binary64}, Exceeds t a v → Exceeds s a v :=
    Exceeds.anti ((isTolerance_iff s).1 hs).1 ((isTolerance_iff t).1 ht).1 hst
  induction ms generalizing joined joined' low low' with
  | nil => simp [splitFrom]
  | cons m ms ih =>
    -- after a new start of both scans they are at the same place
    have hsame : (splitFrom t m.confidence [m] ms).length ≤ (splitFrom s m.confidence [m] ms).length :=
      (ih [m] [m] m.confidence m.confidence).1 fun _ => hanti
    unfold splitFrom
    constructor
    · intro hahead
      by_cases hlow : Exceeds t low m.confidence
      · rw [if_neg hlow, if_neg (hahead _ hlow), List.length_cons, List.length_cons]
        omega
      · rw [if_pos (not_not.1 hlow)]
        by_cases hlow' : Exceeds s low' m.confidence
        · rw [if_neg hlow', List.length_cons]
          exact (ih _ _ low m.confidence).2 hlow
        · rw [if_pos (not_not.1 hlow')]
          exact (ih _ _ low low').1 hahead
    · intro hwithin
      by_cases hlow : Exceeds t low m.confidence
      · rw [if_neg hlow, List.length_cons]
        by_cases hlow' : Exceeds s low' m.confidence
        · rw [if_neg hlow', List.length_cons]
          omega
        · -- the start that the greater tolerance comes to now is above the one of the other scan
          rw [if_pos (not_not.1 hlow')]
          obtain ⟨hlown, hmn⟩ := ne_nan_of_within hs hlow'
          have hle : low' ≤ m.confidence := by
            rcases Int.le_total low'.rank m.confidence.rank with hrank | hrank
            · exact (Binary64.le_iff _ _).2 ⟨hlown, hmn, hrank⟩
            · exact absurd hlow (within_of_le ht ((Binary64.le_iff _ _).2 ⟨hmn, hlown, hrank⟩) hwithin)
          refine Nat.succ_le_succ ((ih _ _ m.confidence low').1 fun v hv => hanti ?_)
          by_contra hv'
          exact within_of_ge ht hle hv' hv
      · rw [if_pos (not_not.1 hlow)]
        by_cases hlow' : Exceeds s low' m.confidence
        · rw [if_neg hlow', List.length_cons]
          have := (ih (joined ++ [m]) [m] low m.confidence).2 hlow
          omega
        · rw [if_pos (not_not.1 hlow')]
          exact (ih _ _ low low').2 hwithin

/-- A scan under a greater tolerance makes no more clusters, whatever the confidences are. -/
theorem length_clusters_le (hs : Config.isTolerance s = true) (ht : Config.isTolerance t = true) (hst : s ≤ t)
    (ms : List Member) : (clusters t ms).length ≤ (clusters s ms).length := by
  unfold clusters
  split
  · exact Nat.le_refl _
  · rename_i m rest _
    exact (length_splitFrom_le hs ht hst rest [m] [m] m.confidence m.confidence).1 fun _ =>
      Exceeds.anti ((isTolerance_iff s).1 hs).1 ((isTolerance_iff t).1 ht).1 hst

/-- Every cluster makes a class. -/
theorem length_filterMap_classOf (t : Binary64) (ms : List Member) :
    ((clusters t ms).filterMap classOf).length = (clusters t ms).length := by
  have hclass : ∀ k ∈ clusters t ms, (classOf k).isSome = true := by
    intro k hk
    cases k with
    | nil => exact absurd rfl (ne_nil_of_mem_cluster hk)
    | cons m rest => rfl
  rw [List.length_filterMap_eq_countP, List.countP_eq_length.2 hclass]

/-! ## Leaves left -/

/-- Merging leaves one leaf for each class of the lowest level. -/
theorem WellFormed.leafCount_quotient (hf : f.WellFormed) (t : Binary64) :
    (f.quotient t).leafCount = (f.levelClasses t [] (f.level 0)).length := by
  have hleaf : ∀ c ∈ f.classes t, (f.quotient t).children c.representative = [] ↔ f.height c.representative = 0 := by
    intro c hc
    have hw := hf.mem_walk_of_mem_members hc (representative_mem hc)
    rw [hf.children_quotient t hw, List.map_eq_nil_iff]
    constructor
    · intro hnil
      rw [(hf.1 _ (hf.lt_of_mem_walk hw)).2, hnil]
      rfl
    · exact hf.children_eq_nil
  have hbelow : f.classesBelow t 1 = f.levelClasses t [] (f.level 0) := by
    rw [classesBelow_succ]
    rfl
  have hcount : (f.quotient t).leafCount = (f.classes t).countP (fun c => decide (f.height c.representative = 0)) := by
    rw [leafCount, ← (hf.map_representative_perm t).countP_eq, List.countP_map]
    exact List.countP_congr fun c hc => by simpa using hleaf c hc
  -- there is nothing on the level above the highest, so the lowest level can be split off even when there is none
  have htop : f.level f.levelCount = [] := by
    rw [level, List.filter_eq_nil_iff]
    intro i hi
    rw [decide_eq_true_iff]
    exact Nat.ne_of_lt (lt_heightOver (List.mem_map_of_mem hi))
  have hclasses : f.classesBelow t (1 + f.levelCount) = f.classes t := by
    rw [Nat.add_comm, classesBelow_succ, htop]
    exact List.append_nil _
  obtain ⟨added, heq, hadded⟩ := classesBelow_add f t 1 f.levelCount
  rw [hclasses, hbelow] at heq
  have hlow : ∀ c ∈ f.levelClasses t [] (f.level 0), f.height c.representative = 0 := by
    intro c hc
    have hrep := representative_mem (heq ▸ List.mem_append_left added hc)
    exact (mem_level.1 (mem_level_of_mem_members hc hrep)).2
  have hhigh : ∀ c ∈ added, ¬f.height c.representative = 0 := by
    intro c hc
    have := hadded c hc _ (representative_mem (heq ▸ List.mem_append_right _ hc))
    omega
  rw [hcount, heq, List.countP_append, List.countP_eq_length.2 (by simpa using hlow), List.countP_eq_zero.2 (by simpa using hhigh),
    Nat.add_zero]

/-- A greater tolerance leaves no more classes on the lowest level. -/
theorem length_levelClasses_le (f : Forest) (hs : Config.isTolerance s = true) (ht : Config.isTolerance t = true) (hst : s ≤ t)
    (classes : List MergeClass) (level : List Nat) :
    (f.levelClasses t classes level).length ≤ (f.levelClasses s classes level).length := by
  rw [levelClasses_eq, levelClasses_eq, List.length_flatMap, List.length_flatMap]
  refine List.sum_le_sum fun sign _ => ?_
  rw [length_filterMap_classOf, length_filterMap_classOf]
  exact length_clusters_le hs ht hst _

/-! ## Nodes left -/

/-- A scan of confidences that all lie within the tolerance of each other makes one class. -/
theorem scan_eq_singleton {values : List Binary64} (hne : values ≠ [])
    (h : ∀ x ∈ values, ∀ y ∈ values, y - x ≤ t + toleranceSlack) : scan t values = [values] := by
  cases values with
  | nil => exact absurd rfl hne
  | cons x rest =>
    have hall : ∀ y ∈ rest, decide (y - x ≤ t + toleranceSlack) = true :=
      fun y hy => decide_eq_true (h x (by simp) y (by simp [hy]))
    rw [scan_cons, List.takeWhile_eq_self_iff.2 hall, List.dropWhile_eq_nil_iff.2 hall, scan]

/-- Where the leaves that say the same all lie within the tolerance of each other, the scan keeps together all that another one does. -/
theorem scanKeepsTogether_of_within (s : Binary64) (h : ∀ i ∈ f.walk, f.children i = [] →
    ∀ j ∈ f.leavesLike i, ∀ k ∈ f.leavesLike i, f.value k - f.value j ≤ t + toleranceSlack) : f.ScanKeepsTogether s t := by
  intro i hi hnil j hj _
  have hmem : ∀ k ∈ f.leavesLike i, f.value k ∈ ascending ((f.leavesLike i).map f.value) :=
    fun k hk => List.mem_mergeSort.2 (List.mem_map_of_mem hk)
  have hself := hmem i (List.mem_filter.2 ⟨hi, decide_eq_true ⟨hnil, rfl⟩⟩)
  refine ⟨_, ?_, hself, hmem j hj⟩
  rw [scan_eq_singleton (List.ne_nil_of_mem hself), List.mem_singleton]
  intro x hx y hy
  obtain ⟨k, hk, rfl⟩ := List.mem_map.1 (List.mem_mergeSort.1 hx)
  obtain ⟨l, hl, rfl⟩ := List.mem_map.1 (List.mem_mergeSort.1 hy)
  exact h i hi hnil k hk l hl

/-- Lists with the same images under one map have the same images under another one that tells no more elements apart. -/
theorem map_eq_map_of_map {g h : Nat → Nat} {cs ds : List Nat} (heq : cs.map g = ds.map g)
    (hgh : ∀ c ∈ cs, ∀ d ∈ ds, g c = g d → h c = h d) : cs.map h = ds.map h := by
  induction cs generalizing ds with
  | nil => cases ds <;> simp_all
  | cons c cs ih =>
    cases ds with
    | nil => simp at heq
    | cons d ds =>
      rw [List.map_cons, List.map_cons, List.cons.injEq] at heq
      rw [List.map_cons, List.map_cons, hgh c (by simp) d (by simp) heq.1,
        ih heq.2 fun x hx y hy => hgh x (by simp [hx]) y (by simp [hy])]

/-- Where the scan keeps together the leaves that a tolerance merges, all nodes that it merges are merged under the other one. -/
theorem WellFormed.representative_eq_of_keeps (hf : f.WellFormed) (hcheck : f.Checked) (hleaf : f.LeavesFinite)
    (hs : Config.isTolerance s = true) (ht : Config.isTolerance t = true) (hkeep : f.ScanKeepsTogether s t) {i j : Nat}
    (hi : i ∈ f.walk) (hj : j ∈ f.walk) (hrep : representative (f.classes s) i = representative (f.classes s) j) :
    representative (f.classes t) i = representative (f.classes t) j := by
  revert hi hj hrep
  induction i using hf.induction generalizing j with
  | step i ih =>
    intro hi hj hrep
    cases (hf.representative_eq_iff_equivalent hcheck hleaf hs hi hj).1 hrep with
    | leaf hni hnj hsame htogether =>
      have hlike : j ∈ f.leavesLike i := List.mem_filter.2 ⟨hj, decide_eq_true ⟨hnj, hsame.symm⟩⟩
      exact (hf.representative_leaf_iff hcheck hleaf ht hi hj hni hnj hsame).2 (hkeep i hi hni j hlike htogether)
    | inner hni hnj hsame hforall =>
      have hreps : (f.children i).map (representative (f.classes s)) = (f.children j).map (representative (f.classes s)) := by
        refine (map_eq_map_iff_forall₂ fun c hc d hd => ?_).2 hforall
        exact hf.representative_eq_iff_equivalent hcheck hleaf hs (hf.child_mem_walk hi hc) (hf.child_mem_walk hj hd)
      have hreps' := map_eq_map_of_map hreps fun c hc d hd =>
        ih c hc (hf.child_mem_walk hi hc) (hf.child_mem_walk hj hd)
      apply hf.representative_inner hcheck hleaf ht hi hni
      exact mem_peersOf.2 ⟨hj, hf.height_eq_of_children hj hi hreps'.symm, content_eq_iff.2 ⟨hsame.symm, hreps'.symm⟩⟩

/-- No more nodes are left than it takes to stand for all nodes. -/
theorem WellFormed.count_quotient_le_length (hf : f.WellFormed) {chosen : List Nat}
    (h : ∀ i ∈ f.walk, ∃ j ∈ chosen, representative (f.classes t) i = representative (f.classes t) j) :
    (f.quotient t).count ≤ chosen.length := by
  have hsub : (f.quotient t).walk ⊆ chosen.map (representative (f.classes t)) := by
    intro r hr
    obtain ⟨i, hi, rfl⟩ := (hf.mem_walk_quotient_iff t r).1 hr
    obtain ⟨j, hj, hrep⟩ := h i hi
    exact List.mem_map.2 ⟨j, hj, hrep.symm⟩
  have hle := (List.subperm_of_subset (hf.quotient t).nodup_walk hsub).length_le
  rwa [List.length_map] at hle

/-- Nodes of different representatives are all left. -/
theorem WellFormed.length_le_count_quotient (hf : f.WellFormed) {chosen : List Nat} (hmem : ∀ i ∈ chosen, i ∈ f.walk)
    (h : (chosen.map (representative (f.classes t))).Nodup) : chosen.length ≤ (f.quotient t).count := by
  have hsub : chosen.map (representative (f.classes t)) ⊆ (f.quotient t).walk := by
    intro r hr
    obtain ⟨i, hi, rfl⟩ := List.mem_map.1 hr
    exact hf.representative_mem_walk_quotient t (hmem i hi)
  have hle := (List.subperm_of_subset h hsub).length_le
  rwa [List.length_map] at hle

/-- Where nodes of one representative keep one, no more nodes are left. -/
theorem WellFormed.count_quotient_le (hf : f.WellFormed) (hkeep : ∀ i ∈ f.walk, ∀ j ∈ f.walk,
    representative (f.classes s) i = representative (f.classes s) j →
      representative (f.classes t) i = representative (f.classes t) j) :
    (f.quotient t).count ≤ (f.quotient s).count := by
  refine hf.count_quotient_le_length fun i hi => ?_
  have hrep := hf.representative_mem_walk_quotient s hi
  have hself := hf.representative_of_mem_walk_quotient hrep
  exact ⟨_, hrep, hkeep i hi _ (hf.mem_walk_of_mem_walk_quotient hrep) hself.symm⟩

/-- Merging a forest without cycles under a greater tolerance leaves no more leaves, whatever their confidences are; and where the
confidences of the leaves are finite and the scan under the greater tolerance takes apart no leaves that the smaller one merges, it
leaves no more nodes. -/
theorem merge_of_greater_tolerance (hf : f.WellFormed) (ht : Config.isTolerance t = true) (hs : 0 ≤ s) (hst : s ≤ t) :
    ∃ m m', f.merge s = .ok m ∧ f.merge t = .ok m' ∧ m'.forest.leafCount ≤ m.forest.leafCount ∧
      (f.Checked → f.LeavesFinite → f.ScanKeepsTogether s t → m'.after ≤ m.after) := by
  have hs' : Config.isTolerance s = true := by
    rw [isTolerance_iff] at ht ⊢
    exact ⟨Binary64.isFinite_of_between Binary64.isFinite_zero ht.1 hs hst, hs⟩
  refine ⟨_, _, f.merge_eq hs', f.merge_eq ht, ?_, fun hcheck hleaf hkeep => ?_⟩
  · change (f.quotient t).leafCount ≤ (f.quotient s).leafCount
    rw [hf.leafCount_quotient, hf.leafCount_quotient]
    exact length_levelClasses_le f hs' ht hst _ _
  · exact hf.count_quotient_le fun i hi j hj => hf.representative_eq_of_keeps hcheck hleaf hs' ht hkeep hi hj

/-- The forest with shared nodes keeps no more leaves and nodes under a tolerance that merges its three leaves than under one that
merges the two close ones. -/
theorem merge_of_greater_tolerance_shared : ∃ m m', sharedExample.merge 0.05 = .ok m ∧ sharedExample.merge 0.5 = .ok m' ∧
    m'.forest.leafCount ≤ m.forest.leafCount ∧ m'.after ≤ m.after := by
  have hwithin : ∀ i ∈ sharedExample.walk, sharedExample.children i = [] → ∀ j ∈ sharedExample.leavesLike i,
      ∀ k ∈ sharedExample.leavesLike i, sharedExample.value k - sharedExample.value j ≤ 0.5 + toleranceSlack := by
    decide +kernel
  obtain ⟨hf, hcheck, _, _⟩ := sharedExample_spec
  have ht : (0.5 : Binary64).inUnit = true := Binary64.inUnit_ofScientific (by decide)
  have hs : (0.05 : Binary64).inUnit = true := Binary64.inUnit_ofScientific (by decide)
  have hst : (0.05 : Binary64) ≤ 0.5 := Binary64.ofScientific_le (by decide)
  obtain ⟨m, m', hm, hm', hleaves, hnodes⟩ := merge_of_greater_tolerance hf (isTolerance_of_inUnit ht)
    ((Binary64.inUnit_iff 0.05).1 hs).1 hst
  refine ⟨m, m', hm, hm', hleaves, hnodes hcheck leavesFinite_sharedExample ?_⟩
  exact scanKeepsTogether_of_within 0.05 hwithin

/-! ## A greater tolerance that leaves more nodes -/

/-- Three leaves that say the same, two of them under statements. The confidence in the middle is nearer to the upper one. -/
def chainExample : Forest where
  nodes := #[
    ⟨⟨"a", .terminal, "x", .declare, 0.1, none, some ⟨"a", .terminal, "x", "name", .identifier, 1, none, none, none⟩⟩, [], 0⟩,
    ⟨⟨"b", .terminal, "x", .declare, 0.3, none, some ⟨"b", .terminal, "x", "name", .identifier, 1, none, none, none⟩⟩, [], 0⟩,
    ⟨⟨"c", .terminal, "x", .declare, 0.4, none, some ⟨"c", .terminal, "x", "name", .identifier, 1, none, none, none⟩⟩, [], 0⟩,
    ⟨⟨"d", .nonterminal, "row", .assign, 0.3, none, none⟩, [1], 1⟩,
    ⟨⟨"e", .nonterminal, "row", .assign, 0.4, none, none⟩, [2], 1⟩]
  roots := [0, 3, 4]

/-- The forest can be merged. Its three confidences ascend, they are different ones, and one of the distances is within each
tolerance. -/
theorem chainExample_spec :
    (chainExample.WellFormed ∧ chainExample.Checked ∧ chainExample.LeavesSettled ∧ chainExample.walk = [0, 3, 1, 4, 2]) ∧
    (chainExample.leavesLike 1).map chainExample.value = [0.1, 0.3, 0.4] ∧
    (chainExample.value 1 = 0.3 ∧ chainExample.value 2 = 0.4) ∧
    [(0.1 : Binary64), 0.3, 0.4].Pairwise (fun a b => decide (a ≤ b) = true) ∧
    ((0.4 : Binary64) ≠ 0.1 ∧ (0.4 : Binary64) ≠ 0.3 ∧ (0.3 : Binary64) ≠ 0.4) ∧
    (¬(0.3 : Binary64) - 0.1 ≤ 0.1 + toleranceSlack ∧ (0.4 : Binary64) - 0.3 ≤ 0.1 + toleranceSlack) ∧
    (0.3 : Binary64) - 0.1 ≤ 0.2 + toleranceSlack ∧ ¬(0.4 : Binary64) - 0.1 ≤ 0.2 + toleranceSlack := by decide +kernel

/-- The scan of the three confidences starts a class at the middle one under the smaller tolerance, and at the upper one under the
greater tolerance. -/
theorem scan_chain : scan 0.1 (ascending [0.1, 0.3, 0.4]) = [[0.1], [0.3, 0.4]] ∧
    scan 0.2 (ascending [0.1, 0.3, 0.4]) = [[0.1, 0.3], [0.4]] := by
  obtain ⟨_, _, _, horder, _, hsmall, hgreat⟩ := chainExample_spec
  rw [ascending, List.mergeSort_of_pairwise horder]
  generalize (0.1 : Binary64) = a at *
  generalize (0.3 : Binary64) = b at *
  generalize (0.4 : Binary64) = c at *
  constructor
  · simp [scan_cons, hsmall, scan]
  · simp [scan_cons, hgreat, scan]

theorem together_chain : chainExample.Together 0.1 1 2 ∧ ¬chainExample.Together 0.2 1 2 := by
  obtain ⟨_, hlike, hvalues, _, hne, _⟩ := chainExample_spec
  obtain ⟨hsmall, hgreat⟩ := scan_chain
  unfold Together
  rw [hlike, hvalues.1, hvalues.2, hsmall, hgreat]
  generalize (0.1 : Binary64) = a at *
  generalize (0.3 : Binary64) = b at *
  generalize (0.4 : Binary64) = c at *
  simp [hne]

theorem equivalent_chain : (chainExample.Equivalent 0.1 1 2 ∧ chainExample.Equivalent 0.1 3 4) ∧
    ¬chainExample.Equivalent 0.2 1 2 ∧ ¬chainExample.Equivalent 0.2 3 4 := by
  obtain ⟨htogether, hapart⟩ := together_chain
  have hleaves : chainExample.Equivalent 0.1 1 2 := .leaf rfl rfl rfl htogether
  have hleaves' : ¬chainExample.Equivalent 0.2 1 2 := by
    rintro (⟨_, _, _, h⟩ | ⟨h, _⟩)
    · exact hapart h
    · exact h rfl
  refine ⟨⟨hleaves, .inner (by decide) (by decide) rfl (.cons hleaves .nil)⟩, hleaves', ?_⟩
  rintro (⟨h, _⟩ | ⟨_, _, _, h⟩)
  · exact absurd h (by decide)
  · exact hleaves' (List.forall₂_cons.1 h).1

/-- Under the greater tolerance the middle leaf is merged with the lowest one and not with the upper one, so the two statements are not
merged, and four nodes are left where the smaller tolerance leaves three. -/
theorem greater_tolerance_leaves_more : chainExample.WellFormed ∧ chainExample.Checked ∧ chainExample.LeavesSettled ∧
    (0 : Binary64) ≤ 0.1 ∧ (0.1 : Binary64) ≤ 0.2 ∧
    ∃ m m', chainExample.merge 0.1 = .ok m ∧ chainExample.merge 0.2 = .ok m' ∧ m.after < m'.after := by
  obtain ⟨⟨hf, hcheck, hset, hwalk⟩, _⟩ := chainExample_spec
  have hleaf : chainExample.LeavesFinite := fun i hi hnil => (hset i hi hnil).isFinite
  have h1 : (0.1 : Binary64).inUnit = true := Binary64.inUnit_ofScientific (by decide)
  have h2 : (0.2 : Binary64).inUnit = true := Binary64.inUnit_ofScientific (by decide)
  have h01 := ((Binary64.inUnit_iff 0.1).1 h1).1
  have h12 : (0.1 : Binary64) ≤ 0.2 := Binary64.ofScientific_le (by decide)
  have hs := isTolerance_of_inUnit h1
  have ht := isTolerance_of_inUnit h2
  obtain ⟨⟨hleaves, hstatements⟩, hleaves', hstatements'⟩ := equivalent_chain
  refine ⟨hf, hcheck, hset, h01, h12, _, _, chainExample.merge_eq hs, chainExample.merge_eq ht, ?_⟩
  generalize (0.1 : Binary64) = s at *
  generalize (0.2 : Binary64) = t at *
  have hmem : ∀ i ∈ [0, 1, 2, 3, 4], i ∈ chainExample.walk := by simp [hwalk]
  have hiff : ∀ {t}, Config.isTolerance t = true → ∀ i ∈ [0, 1, 2, 3, 4], ∀ j ∈ [0, 1, 2, 3, 4],
      (representative (chainExample.classes t) i = representative (chainExample.classes t) j ↔ chainExample.Equivalent t i j) :=
    fun ht i hi j hj => hf.representative_eq_iff_equivalent hcheck hleaf ht (hmem i hi) (hmem j hj)
  have hcount : (chainExample.quotient s).count ≤ [0, 1, 3].length := by
    refine hf.count_quotient_le_length fun i hi => ?_
    have h12 := (hiff hs 1 (by simp) 2 (by simp)).2 hleaves
    have h34 := (hiff hs 3 (by simp) 4 (by simp)).2 hstatements
    simp only [hwalk, List.mem_cons, List.not_mem_nil, or_false] at hi
    rcases hi with rfl | rfl | rfl | rfl | rfl <;> simp [← h12, ← h34]
  have hcount' : [1, 2, 3, 4].length ≤ (chainExample.quotient t).count := by
    refine hf.length_le_count_quotient (fun i hi => hmem i (List.mem_cons_of_mem 0 hi)) ?_
    have h12 := mt (hiff ht 1 (by simp) 2 (by simp)).1 hleaves'
    have h34 := mt (hiff ht 3 (by simp) 4 (by simp)).1 hstatements'
    -- a leaf and a statement have representatives of different heights
    have hheight : ∀ i j, chainExample.height i ≠ chainExample.height j →
        representative (chainExample.classes t) i ≠ representative (chainExample.classes t) j := by
      intro i j hne hrep
      apply hne
      rw [← hf.height_representative t i, hrep, hf.height_representative]
    simp [h12, h34, hheight 1 3 (by decide), hheight 1 4 (by decide), hheight 2 3 (by decide), hheight 2 4 (by decide)]
  simp only [List.length_cons, List.length_nil] at hcount hcount'
  dsimp only
  omega

end Forest

end TokenForest
