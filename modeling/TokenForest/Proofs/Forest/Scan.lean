import TokenForest.Forest.Equivalence
import TokenForest.Proofs.Forest.Clusters

/-!
# Scanning confidences

The clusters of some members are known from their confidences alone: they are the classes that a scan of the confidences in
ascending order makes. Two clusters have no value in common, so a member is found in a cluster by its value.
-/

namespace TokenForest

namespace Forest

/-! ## Classes of values -/

theorem scan_cons (t a : Binary64) (rest : List Binary64) : scan t (a :: rest) =
    (a :: rest.takeWhile (fun c => decide (c - a ≤ t + toleranceSlack))) ::
      scan t (rest.dropWhile (fun c => decide (c - a ≤ t + toleranceSlack))) := by
  rw [scan]

end Forest

/-! ## Helpers: the two zeros -/

namespace Binary64

theorem isFinite_dropZeroSign {x : Binary64} (h : x.isFinite = true) : x.dropZeroSign.isFinite = true := by
  unfold dropZeroSign
  split
  · exact isFinite_zero
  · exact h

theorem units_dropZeroSign (x : Binary64) : x.dropZeroSign.units = x.units := by
  unfold dropZeroSign
  split
  · rw [zero_eq]
    rfl
  · rfl

/-- Differences of finite numbers compare alike whatever the sign of a zero in them is. -/
theorem sub_dropZeroSign_le_iff {x y z : Binary64} (hx : x.isFinite = true) (hy : y.isFinite = true) :
    x.dropZeroSign - y.dropZeroSign ≤ z ↔ x - y ≤ z := by
  have hx' := isFinite_dropZeroSign hx
  have hy' := isFinite_dropZeroSign hy
  rw [le_iff, le_iff, rank_sub hx hy, rank_sub hx' hy', units_dropZeroSign, units_dropZeroSign]
  simp only [sub_ne_nan hx hy, sub_ne_nan hx' hy', ne_eq, not_false_eq_true, true_and]

theorem dropZeroSign_le_iff {x y : Binary64} (hx : x.isFinite = true) (hy : y.isFinite = true) :
    x.dropZeroSign ≤ y.dropZeroSign ↔ x ≤ y := by
  have hx' := isFinite_dropZeroSign hx
  have hy' := isFinite_dropZeroSign hy
  rw [le_iff, le_iff, rank_of_isFinite hx, rank_of_isFinite hy, rank_of_isFinite hx', rank_of_isFinite hy',
    units_dropZeroSign, units_dropZeroSign]
  simp only [ne_nan_of_isFinite, hx, hy, hx', hy', ne_eq, not_false_eq_true, true_and]

/-- Finite numbers that are equal as values are one number once the sign of zero is dropped. -/
theorem dropZeroSign_antisymm {x y : Binary64} (hx : x.isFinite = true) (hy : y.isFinite = true)
    (h : x.dropZeroSign ≤ y.dropZeroSign) (h' : y.dropZeroSign ≤ x.dropZeroSign) : x.dropZeroSign = y.dropZeroSign := by
  rw [dropZeroSign_le_iff hx hy, le_iff, rank_of_isFinite hx, rank_of_isFinite hy] at h
  rw [dropZeroSign_le_iff hy hx, le_iff, rank_of_isFinite hx, rank_of_isFinite hy] at h'
  have hunits : x.units = y.units := Int.le_antisymm h.2.2 h'.2.2
  cases x with
  | finite u hu =>
    cases y with
    | finite v hv =>
      simp only [units] at hunits
      subst hunits
      rfl
    | negZero =>
      simp only [units] at hunits
      subst hunits
      exact zero_eq.symm
    | _ => simp [isFinite] at hy
  | negZero =>
    cases y with
    | finite v hv =>
      simp only [units] at hunits
      subst hunits
      exact zero_eq
    | negZero => rfl
    | _ => simp [isFinite] at hy
  | _ => simp [isFinite] at hx

end Binary64

namespace Forest

variable {t : Binary64} {ms k k' : List Member}

/-! ## Clusters by value -/

/-- The pieces of ascending members have the values that a scan of their values finds. -/
theorem map_value_splitFrom {low : Binary64} (hlow : low.isFinite = true) (joined : List Member) (hms : AllFinite ms) :
    (splitFrom t low joined ms).map (fun k => k.map Member.value) =
      (joined.map Member.value ++
          (ms.map Member.value).takeWhile (fun c => decide (c - low.dropZeroSign ≤ t + toleranceSlack))) ::
        scan t ((ms.map Member.value).dropWhile (fun c => decide (c - low.dropZeroSign ≤ t + toleranceSlack))) := by
  induction ms generalizing low joined with
  | nil => simp [splitFrom, scan]
  | cons m ms ih =>
    have hm : m.confidence.isFinite = true := hms m (by simp)
    have hrest : AllFinite ms := fun x hx => hms x (by simp [hx])
    have hwithin := Binary64.sub_dropZeroSign_le_iff (z := t + toleranceSlack) hm hlow
    unfold splitFrom
    split
    · rename_i h
      have hv : m.value - low.dropZeroSign ≤ t + toleranceSlack := hwithin.2 h
      rw [ih hlow _ hrest, List.map_cons, List.takeWhile_cons_of_pos (by simpa using hv),
        List.dropWhile_cons_of_pos (by simpa using hv)]
      simp
    · rename_i h
      have hv : ¬m.value - low.dropZeroSign ≤ t + toleranceSlack := fun hle => h (hwithin.1 hle)
      rw [List.map_cons, List.map_cons, ih hm _ hrest, List.takeWhile_cons_of_neg (by simpa using hv),
        List.dropWhile_cons_of_neg (by simpa using hv), scan_cons, List.append_nil]
      rfl

/-- Finite numbers are put into ascending order. -/
theorem pairwise_ascending {values : List Binary64} (h : ∀ x ∈ values, x.isFinite = true) :
    (ascending values).Pairwise (fun a b => a ≤ b) := by
  -- with not-a-number left out the order is that of the ranks, which is total
  have hrank : ∀ x ∈ values, ∀ y ∈ values, decide (x ≤ y) = decide (x.rank ≤ y.rank) := by
    intro x hx y hy
    have hle := Binary64.le_iff x y
    simp only [Binary64.ne_nan_of_isFinite (h x hx), Binary64.ne_nan_of_isFinite (h y hy), ne_eq, not_false_eq_true,
      true_and] at hle
    simp only [hle]
  have hsort : ascending values = values.mergeSort (fun x y => decide (x.rank ≤ y.rank)) := by
    have hmap := List.map_mergeSort (r := fun x y : Binary64 => decide (x ≤ y))
      (s := fun x y : Binary64 => decide (x.rank ≤ y.rank)) (f := id) hrank
    rw [List.map_id, List.map_id] at hmap
    exact hmap
  have hpair : (values.mergeSort (fun x y => decide (x.rank ≤ y.rank))).Pairwise
      (fun x y => decide (x.rank ≤ y.rank) = true) := by
    apply List.pairwise_mergeSort
    · intro a b c hab hbc
      rw [decide_eq_true_iff] at *
      exact Int.le_trans hab hbc
    · intro a b
      rw [Bool.or_eq_true, decide_eq_true_iff, decide_eq_true_iff]
      exact Int.le_total _ _
  rw [hsort]
  refine hpair.imp_of_mem ?_
  intro a b ha hb hab
  rw [List.mem_mergeSort] at ha hb
  rw [← hrank a ha b hb, decide_eq_true_iff] at hab
  exact hab

/-- The arranged members of finite confidence have their values in ascending order. -/
theorem map_value_arrange (h : AllFinite ms) : (Member.arrange ms).map Member.value = ascending (ms.map Member.value) := by
  have hperm := Member.arrange_perm ms
  have hfin : ∀ m ∈ Member.arrange ms, m.confidence.isFinite = true := fun m hm => h m (hperm.mem_iff.1 hm)
  have hsort : ((Member.arrange ms).map Member.value).Pairwise (fun a b => a ≤ b) := by
    rw [List.pairwise_map]
    refine (pairwise_confidence h).imp_of_mem ?_
    intro a b ha hb hab
    exact (Binary64.dropZeroSign_le_iff (hfin a ha) (hfin b hb)).2 hab
  have hvalues : ∀ x ∈ ms.map Member.value, x.isFinite = true := by
    intro x hx
    obtain ⟨m, hm, rfl⟩ := List.mem_map.1 hx
    exact Binary64.isFinite_dropZeroSign (h m hm)
  have hsame : ((Member.arrange ms).map Member.value).Perm (ascending (ms.map Member.value)) :=
    (hperm.map _).trans (List.mergeSort_perm _ _).symm
  refine hsame.eq_of_pairwise ?_ hsort (pairwise_ascending hvalues)
  intro a b ha hb hab hba
  obtain ⟨m, hm, rfl⟩ := List.mem_map.1 ha
  obtain ⟨n, hn, rfl⟩ := List.mem_map.1 (List.mem_mergeSort.1 hb)
  exact Binary64.dropZeroSign_antisymm (hfin m hm) (h n hn) hab hba

/-- The values of the clusters are the classes that a scan of the ascending values makes. -/
theorem map_value_clusters (t : Binary64) (h : AllFinite ms) :
    (clusters t ms).map (fun k => k.map Member.value) = scan t (ascending (ms.map Member.value)) := by
  have hperm := Member.arrange_perm ms
  rw [← map_value_arrange h]
  unfold clusters
  split
  · rename_i harr
    rw [harr]
    simp [scan]
  · rename_i m rest harr
    rw [harr] at hperm ⊢
    have hm : m.confidence.isFinite = true := h m (hperm.mem_iff.1 (by simp))
    have hrest : AllFinite rest := fun x hx => h x (hperm.mem_iff.1 (by simp [hx]))
    rw [map_value_splitFrom hm [m] hrest, List.map_cons (l := rest), scan_cons]
    rfl

/-! ## One cluster for each member -/

/-- No number exceeds the tolerance over itself. -/
theorem not_exceeds_self (ht : Config.isTolerance t = true) {x : Binary64} (hx : x.isFinite = true) : ¬Exceeds t x x := by
  intro h
  have hn := Binary64.ne_nan_of_isFinite hx
  exact Exceeds.not_le ht hx hx h ((Binary64.le_iff x x).2 ⟨hn, hn, Int.le_refl _⟩)

/-- Two clusters of different members that share a member are one. -/
theorem cluster_unique (hnodup : ms.Nodup) (hk : k ∈ clusters t ms) (hk' : k' ∈ clusters t ms) {m : Member} (hm : m ∈ k)
    (hm' : m ∈ k') : k = k' := by
  have hflat : (clusters t ms).flatten.Nodup := (clusters_perm t ms).nodup_iff.2 hnodup
  rw [List.nodup_flatten] at hflat
  by_contra hne
  have hsymm : Std.Symm (List.Disjoint (α := Member)) := ⟨fun _ _ h _ ha hb => h hb ha⟩
  exact hflat.2.forall hk hk' hne hm hm'

theorem exists_mem_head? {m : Member} (hm : m ∈ k) : ∃ a, a ∈ k.head? := by
  cases k with
  | nil => simp at hm
  | cons a rest => exact ⟨a, rfl⟩

/-- The first member of a cluster has its lowest confidence. -/
theorem first_le_of_mem_cluster (h : AllFinite ms) (hk : k ∈ clusters t ms) {a m : Member} (ha : a ∈ k.head?) (hm : m ∈ k) :
    a.confidence ≤ m.confidence := by
  obtain ⟨rest, hrest⟩ := List.head?_eq_some_iff.1 ha
  rw [hrest, List.mem_cons] at hm
  rcases hm with rfl | hm
  · have hn := Binary64.ne_nan_of_isFinite (h m (mem_of_mem_cluster hk (List.mem_of_mem_head? ha)))
    exact (Binary64.le_iff _ _).2 ⟨hn, hn, Int.le_refl _⟩
  · exact head_le_of_mem_cluster h hk hrest hm

/-- The members of each piece lie within the tolerance of its first one. -/
theorem splitFrom_within {j : Member} {js : List Member} (ht : Config.isTolerance t = true)
    (hjs : ∀ x ∈ j :: js, ¬Exceeds t j.confidence x.confidence) (hms : AllFinite ms) :
    ∀ k ∈ splitFrom t j.confidence (j :: js) ms, ∀ a ∈ k.head?, ∀ x ∈ k, ¬Exceeds t a.confidence x.confidence := by
  induction ms generalizing j js with
  | nil =>
    intro k hk a ha x hx
    unfold splitFrom at hk
    rw [List.mem_singleton] at hk
    subst hk
    simp only [List.head?_cons, Option.mem_some_iff] at ha
    subst ha
    exact hjs x hx
  | cons m ms ih =>
    have hm : m.confidence.isFinite = true := hms m (by simp)
    have hrest : AllFinite ms := fun x hx => hms x (by simp [hx])
    unfold splitFrom
    split
    · rename_i h
      refine ih (fun x hx => ?_) hrest
      have hx : x ∈ (j :: js) ++ [m] := hx
      rcases List.mem_append.1 hx with hx | hx
      · exact hjs x hx
      · rw [List.mem_singleton] at hx
        subst hx
        exact not_not_intro h
    · intro k hk a ha x hx
      rcases List.mem_cons.1 hk with rfl | hk
      · simp only [List.head?_cons, Option.mem_some_iff] at ha
        subst ha
        exact hjs x hx
      · refine ih (fun x hx => ?_) hrest k hk a ha x hx
        rw [List.mem_singleton] at hx
        subst hx
        exact not_exceeds_self ht hm

/-- The members of a cluster lie within the tolerance of its first one. -/
theorem within_of_mem_cluster (ht : Config.isTolerance t = true) (h : AllFinite ms) (hk : k ∈ clusters t ms) {a m : Member}
    (ha : a ∈ k.head?) (hm : m ∈ k) : ¬Exceeds t a.confidence m.confidence := by
  have hperm := Member.arrange_perm ms
  unfold clusters at hk
  split at hk
  · simp at hk
  · rename_i first rest harr
    rw [harr] at hperm
    have hfirst : first.confidence.isFinite = true := h first (hperm.mem_iff.1 (by simp))
    refine splitFrom_within ht (fun x hx => ?_) (fun x hx => h x (hperm.mem_iff.1 (by simp [hx]))) k hk a ha m hm
    rw [List.mem_singleton] at hx
    subst hx
    exact not_exceeds_self ht hfirst

/-- Of two clusters the one with the greater first confidence has no value of the other. -/
theorem value_ne_of_apart (ht : Config.isTolerance t = true) (h : AllFinite ms) (hk : k ∈ clusters t ms)
    (hk' : k' ∈ clusters t ms) (hne : k ≠ k') {a b m m' : Member} (ha : a ∈ k.head?) (hb : b ∈ k'.head?) (hm : m ∈ k)
    (hm' : m' ∈ k') (hle : a.confidence ≤ b.confidence) : m.value ≠ m'.value := by
  intro hvalue
  have hfa := h a (mem_of_mem_cluster hk (List.mem_of_mem_head? ha))
  have hfb := h b (mem_of_mem_cluster hk' (List.mem_of_mem_head? hb))
  have hfm := h m (mem_of_mem_cluster hk hm)
  have hfm' := h m' (mem_of_mem_cluster hk' hm')
  have hbm : b.confidence ≤ m'.confidence := first_le_of_mem_cluster h hk' hb hm'
  have hexc : Exceeds t a.confidence m'.confidence :=
    Exceeds.mono hfa hfb hfm' hbm (exceeds_of_mem_clusters ht h hk hk' hne ha hb hle)
  -- the value decides whether a confidence is within the tolerance of `a`
  apply within_of_mem_cluster ht h hk ha hm
  intro hwithin
  apply hexc
  rw [← Binary64.sub_dropZeroSign_le_iff hfm hfa] at hwithin
  rw [← Binary64.sub_dropZeroSign_le_iff hfm' hfa]
  change m'.value - a.confidence.dropZeroSign ≤ t + toleranceSlack
  rw [← hvalue]
  exact hwithin

/-- Members of the same value are in one cluster. -/
theorem cluster_unique_of_value (ht : Config.isTolerance t = true) (h : AllFinite ms) (hk : k ∈ clusters t ms)
    (hk' : k' ∈ clusters t ms) {m m' : Member} (hm : m ∈ k) (hm' : m' ∈ k') (hvalue : m.value = m'.value) : k = k' := by
  by_contra hne
  obtain ⟨a, ha⟩ := exists_mem_head? hm
  obtain ⟨b, hb⟩ := exists_mem_head? hm'
  have hfa := h a (mem_of_mem_cluster hk (List.mem_of_mem_head? ha))
  have hfb := h b (mem_of_mem_cluster hk' (List.mem_of_mem_head? hb))
  have hna := Binary64.ne_nan_of_isFinite hfa
  have hnb := Binary64.ne_nan_of_isFinite hfb
  rcases Int.le_total a.confidence.rank b.confidence.rank with hle | hle
  · exact value_ne_of_apart ht h hk hk' hne ha hb hm hm' ((Binary64.le_iff _ _).2 ⟨hna, hnb, hle⟩) hvalue
  · exact value_ne_of_apart ht h hk' hk (Ne.symm hne) hb ha hm' hm ((Binary64.le_iff _ _).2 ⟨hnb, hna, hle⟩) hvalue.symm

end Forest

end TokenForest
