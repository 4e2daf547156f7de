import TokenForest.Proofs.Forest.Losses
import TokenForest.Proofs.Forest.Scan

/-!
# The fewest classes

The clusters of some members are classes that span no more than the tolerance, and there are no fewer such classes: the lowest members of
the clusters lie so far apart that no class holds two of them. The clusters are known up to the choice among equal confidences, whatever
the order of the members is.
-/

namespace TokenForest

namespace Forest

variable {t : Binary64} {ms ms' : List Member}

/-! ## One test in the place of another -/

section Tests

variable {near near' : Binary64 → Binary64 → Prop} {parts : List (List Member)}

theorem Covers.mem (h : Covers near ms parts) {k : List Member} (hk : k ∈ parts) {a : Member} (ha : a ∈ k) : a ∈ ms :=
  h.holds.mem_iff.1 (List.mem_flatten.2 ⟨k, hk, ha⟩)

theorem Covers.congr (hsame : ∀ a ∈ ms, ∀ b ∈ ms, near a.confidence b.confidence ↔ near' a.confidence b.confidence)
    (h : Covers near ms parts) : Covers near' ms parts :=
  ⟨h.holds, fun k hk a ha b hb => (hsame a (h.mem hk ha) b (h.mem hk hb)).1 (h.spans k hk a ha b hb)⟩

/-- Two tests that agree on the members have the same least covers. -/
theorem LeastCover.congr (hsame : ∀ a ∈ ms, ∀ b ∈ ms, near a.confidence b.confidence ↔ near' a.confidence b.confidence)
    (h : LeastCover near ms parts) : LeastCover near' ms parts where
  toCovers := h.toCovers.congr hsame
  nonempty := h.nonempty
  ascending := h.ascending
  disjoint := h.disjoint
  apart := by
    refine h.apart.imp_of_mem fun hk hk' happart a b ha hb => ?_
    rw [← hsame a (h.toCovers.mem hk ha.1) b (h.toCovers.mem hk' hb.1)]
    exact happart a b ha hb
  fewest := fun other hother => h.fewest other (hother.congr fun a ha b hb => (hsame a ha b hb).symm)

end Tests

/-! ## No fewer classes -/

/-- There are as many classes at least as members no two of which share one. -/
theorem length_le_of_separated {parts : List (List Member)} {as : List Member} (hmem : ∀ a ∈ as, ∃ k ∈ parts, a ∈ k)
    (hsep : as.Pairwise (fun a b => ∀ k ∈ parts, a ∈ k → b ∉ k)) : as.length ≤ parts.length := by
  induction as generalizing parts with
  | nil => simp
  | cons a as ih =>
    rw [List.pairwise_cons] at hsep
    obtain ⟨k, hk, ha⟩ := hmem a (by simp)
    -- the class of the first member holds none of the others
    obtain ⟨front, back, rfl⟩ := List.append_of_mem hk
    have hrest : ∀ b ∈ as, ∃ k' ∈ front ++ back, b ∈ k' := by
      intro b hb
      obtain ⟨k', hk', hbk'⟩ := hmem b (by simp [hb])
      rcases List.mem_append.1 hk' with hfront | hback
      · exact ⟨k', List.mem_append_left _ hfront, hbk'⟩
      · rcases List.mem_cons.1 hback with rfl | hback
        · exact absurd hbk' (hsep.1 b hb k' hk ha)
        · exact ⟨k', List.mem_append_right _ hback, hbk'⟩
    have hsub : ∀ k' ∈ front ++ back, k' ∈ front ++ k :: back := by
      intro k' hk'
      rcases List.mem_append.1 hk' with h | h <;> simp [h]
    have hlen := ih hrest (hsep.2.imp fun h k' hk' => h k' (hsub k' hk'))
    simp only [List.length_append, List.length_cons] at hlen ⊢
    omega

/-! ## The clusters -/

/-- Members of two clusters are in the order of the clusters. -/
theorem clusters_disjoint (ht : Config.isTolerance t = true) (h : AllFinite ms) :
    (clusters t ms).Pairwise (fun k k' => ∀ a ∈ k, ∀ b ∈ k', a.confidence < b.confidence) := by
  refine (clusters_apart h).imp_of_mem ?_
  intro k k' hk hk' happart a ha b hb
  obtain ⟨first, hfirst⟩ := exists_mem_head? ha
  obtain ⟨first', hfirst'⟩ := exists_mem_head? hb
  have hfin : ∀ {k : List Member}, k ∈ clusters t ms → ∀ {x : Member}, x ∈ k → x.confidence.isFinite = true :=
    fun hk x hx => h x (mem_of_mem_cluster hk hx)
  have hfirstMem := List.mem_of_mem_head? hfirst
  have hfirstMem' := List.mem_of_mem_head? hfirst'
  by_contra hlt
  rw [Binary64.not_lt (Binary64.ne_nan_of_isFinite (hfin hk ha)) (Binary64.ne_nan_of_isFinite (hfin hk' hb))] at hlt
  -- otherwise the first member of the later cluster were within the tolerance of the first one of the earlier
  have hle := Binary64.le_trans (first_le_of_mem_cluster h hk' hfirst' hb) hlt
  exact within_of_mem_cluster ht h hk hfirst ha
    (Exceeds.mono (hfin hk hfirstMem) (hfin hk' hfirstMem') (hfin hk ha) hle (happart first hfirst first' hfirst'))

/-- The confidences of a cluster lie within the tolerance of one another. -/
theorem covers_clusters (ht : Config.isTolerance t = true) (h : AllFinite ms) : Covers (Within t) ms (clusters t ms) where
  holds := clusters_perm t ms
  spans := by
    intro k hk a ha b hb
    obtain ⟨first, hfirst⟩ := exists_mem_head? ha
    have hfin : ∀ {x : Member}, x ∈ k → x.confidence.isFinite = true := fun hx => h _ (mem_of_mem_cluster hk hx)
    have hfirstMem := List.mem_of_mem_head? hfirst
    have hle := (Binary64.le_iff_units (hfin hfirstMem) (hfin ha)).1 (first_le_of_mem_cluster h hk hfirst ha)
    refine Binary64.le_trans (Binary64.sub_le_sub_of_units (hfin hb) (hfin ha) (hfin hb) (hfin hfirstMem) (by omega)) ?_
    exact not_not.1 (within_of_mem_cluster ht h hk hfirst hb)

/-- Whichever members of two clusters have the lowest confidences, they lie further apart than the tolerance. -/
theorem clusters_lowest_apart (h : AllFinite ms) :
    (clusters t ms).Pairwise (fun k k' => ∀ a b, Lowest k a → Lowest k' b → ¬Within t a.confidence b.confidence) := by
  refine (clusters_apart h).imp_of_mem ?_
  intro k k' hk hk' happart a b ha hb hwithin
  obtain ⟨first, hfirst⟩ := exists_mem_head? ha.1
  obtain ⟨first', hfirst'⟩ := exists_mem_head? hb.1
  have hfin : ∀ {k : List Member}, k ∈ clusters t ms → ∀ {x : Member}, x ∈ k → x.confidence.isFinite = true :=
    fun hk x hx => h x (mem_of_mem_cluster hk hx)
  have hfirstMem := List.mem_of_mem_head? hfirst
  have hfirstMem' := List.mem_of_mem_head? hfirst'
  have hlow := (Binary64.le_iff_units (hfin hk ha.1) (hfin hk hfirstMem)).1 (ha.2 first hfirstMem)
  have hhigh := (Binary64.le_iff_units (hfin hk' hfirstMem') (hfin hk' hb.1)).1 (first_le_of_mem_cluster h hk' hfirst' hb.1)
  refine happart first hfirst first' hfirst' (Binary64.le_trans ?_ hwithin)
  exact Binary64.sub_le_sub_of_units (hfin hk' hfirstMem') (hfin hk hfirstMem) (hfin hk' hb.1) (hfin hk ha.1) (by omega)

/-- No classes within the tolerance are fewer than the clusters: the first members of the clusters are in different ones. -/
theorem length_clusters_le_of_covers (h : AllFinite ms) {other : List (List Member)} (hother : Covers (Within t) ms other) :
    (clusters t ms).length ≤ other.length := by
  have hsome : ∀ k ∈ clusters t ms, k.head?.isSome = true := fun k hk => List.isSome_head?.2 (ne_nil_of_mem_cluster hk)
  have hlen : ((clusters t ms).filterMap List.head?).length = (clusters t ms).length := by
    rw [List.length_filterMap_eq_countP, List.countP_eq_length]
    exact hsome
  rw [← hlen]
  apply length_le_of_separated
  · intro a ha
    obtain ⟨k, hk, hak⟩ := List.mem_filterMap.1 ha
    exact List.mem_flatten.1 (hother.holds.mem_iff.2 (mem_of_mem_cluster hk (List.mem_of_mem_head? hak)))
  · rw [List.pairwise_filterMap]
    refine (clusters_apart h).imp ?_
    intro k k' happart a ha b hb part hpart hapart hbpart
    exact happart a ha b hb (hother.spans part hpart a hapart b hbpart)

/-- The clusters are a least cover under the test of the scan. -/
theorem leastCover_clusters (ht : Config.isTolerance t = true) (h : AllFinite ms) : LeastCover (Within t) ms (clusters t ms) where
  toCovers := covers_clusters ht h
  nonempty := fun _ hk => ne_nil_of_mem_cluster hk
  ascending := by
    have hsort := pairwise_confidence h
    rw [← clusters_flatten t, List.pairwise_flatten] at hsort
    exact hsort.1
  disjoint := clusters_disjoint ht h
  apart := clusters_lowest_apart h
  fewest := fun _ hother => length_clusters_le_of_covers h hother

/-! ## Exact values and other orders -/

/-- A tolerance of six places compares settled confidences as their exact values compare. -/
theorem comparesExactly_of_sixPlaces (hset : ∀ m ∈ ms, m.confidence.Settled) (ht : Config.isTolerance t = true)
    (hround : t.roundSix = t) : ComparesExactly t ms :=
  fun a ha b hb hwithin => units_sub_le_of_settled (hset b hb) (hset a ha) ht hround hwithin

/-- What is within the tolerance as an exact value is so as a number of the format, since rounding keeps the order. -/
theorem WithinExactly.within (ht : Config.isTolerance t = true) {low high : Binary64} (hlow : low.isFinite = true)
    (hhigh : high.isFinite = true) (h : WithinExactly t low high) : Within t low high := by
  have hfin := ((isTolerance_iff t).1 ht).1
  rw [Within, Binary64.le_iff, Binary64.rank_sub hhigh hlow, Binary64.rank_add hfin isFinite_toleranceSlack]
  exact ⟨Binary64.sub_ne_nan hhigh hlow, Binary64.add_ne_nan hfin isFinite_toleranceSlack, Binary64.rank_ofUnits_mono h⟩

/-- The values of the clusters do not depend on the order of the members. -/
theorem map_value_clusters_of_perm (h : AllFinite ms) (hperm : ms'.Perm ms) :
    (clusters t ms').map (fun k => k.map Member.value) = (clusters t ms).map (fun k => k.map Member.value) := by
  have h' : AllFinite ms' := fun m hm => h m (hperm.mem_iff.1 hm)
  have hvalues : ∀ {ms : List Member}, AllFinite ms → ∀ x ∈ ms.map Member.value, x.isFinite = true := by
    intro ms h x hx
    obtain ⟨m, hm, rfl⟩ := List.mem_map.1 hx
    exact Binary64.isFinite_dropZeroSign (h m hm)
  have hsame : ascending (ms'.map Member.value) = ascending (ms.map Member.value) := by
    have hsorted : (ascending (ms'.map Member.value)).Perm (ascending (ms.map Member.value)) :=
      (List.mergeSort_perm _ _).trans ((hperm.map _).trans (List.mergeSort_perm _ _).symm)
    refine hsorted.eq_of_pairwise ?_ (pairwise_ascending (hvalues h')) (pairwise_ascending (hvalues h))
    intro a b ha hb hab hba
    obtain ⟨m, hm, rfl⟩ := List.mem_map.1 (List.mem_mergeSort.1 ha)
    obtain ⟨n, hn, rfl⟩ := List.mem_map.1 (List.mem_mergeSort.1 hb)
    exact Binary64.dropZeroSign_antisymm (h' m hm) (h n hn) hab hba
  rw [map_value_clusters t h', map_value_clusters t h, hsame]

/-- The clusters of members of finite confidence hold every member once; they ascend and do not overlap, each of them spans no more than
the tolerance, the lowest confidences of any two of them lie further apart, and no classes that span no more are fewer. This holds of the
numbers of the format, rounded as they are, and of the exact values as soon as no comparison is decided by rounding. Members in another
order have clusters of the same values. -/
theorem clusters_are_fewest (ht : Config.isTolerance t = true) (h : AllFinite ms) :
    LeastCover (Within t) ms (clusters t ms) ∧
      (ComparesExactly t ms → LeastCover (WithinExactly t) ms (clusters t ms)) ∧
      ∀ ms', ms'.Perm ms → (clusters t ms').map (fun k => k.map Member.value) = (clusters t ms).map (fun k => k.map Member.value) := by
  have hleast := leastCover_clusters ht h
  refine ⟨hleast, fun hexact => hleast.congr fun a ha b hb => ⟨hexact a ha b hb, fun hwithin => ?_⟩, fun ms' hperm => ?_⟩
  · exact hwithin.within ht (h a ha) (h b hb)
  · exact map_value_clusters_of_perm h hperm

/-- Five names whose confidences rise in steps smaller than the tolerance, with one of them twice. -/
def evenChain : List Member :=
  [⟨0, 0.93, ((0, 0, 0), 1, "a")⟩, ⟨1, 0.9, ((0, 0, 1), 1, "b")⟩, ⟨2, 0.96, ((0, 0, 2), 1, "c")⟩, ⟨3, 0.99, ((0, 0, 3), 1, "d")⟩,
    ⟨4, 0.93, ((0, 0, 4), 1, "e")⟩]

/-- The chain is cut into classes of exact values, and no fewer would do. -/
theorem clusters_are_fewest_chain : LeastCover (WithinExactly 0.05) evenChain (clusters 0.05 evenChain) := by
  have hset : (∀ m ∈ evenChain, m.confidence.Settled) ∧ Config.isTolerance 0.05 = true ∧ (0.05 : Binary64).roundSix = 0.05 := by
    decide +kernel
  obtain ⟨hsettled, ht, hround⟩ := hset
  obtain ⟨_, hexact, _⟩ := clusters_are_fewest ht (fun m hm => (hsettled m hm).isFinite)
  exact hexact (comparesExactly_of_sixPlaces hsettled ht hround)

end Forest

end TokenForest
