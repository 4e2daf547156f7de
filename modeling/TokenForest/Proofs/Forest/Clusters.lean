import Mathlib.Data.List.Pairwise
import TokenForest.Forest.Equivalence
import TokenForest.Forest.Merge
import TokenForest.Proofs.Binary64.Infinite
import TokenForest.Proofs.Binary64.SixPlaces
import TokenForest.Proofs.Forest.Arrangement

/-!
# Clusters of a level

The clusters of some members are the arranged members cut into pieces. A piece begins where the tolerance of the piece before is
exceeded, so the lowest confidences of any two clusters lie further apart than the tolerance, and members that are all further
apart than the tolerance are clusters by themselves.
-/

namespace TokenForest

namespace Forest

/-- The second confidence lies further above the first one than the tolerance allows. -/
def Exceeds (tolerance low high : Binary64) : Prop := ¬high - low ≤ tolerance + toleranceSlack

theorem isTolerance_iff (t : Binary64) : Config.isTolerance t = true ↔ t.isFinite = true ∧ 0 ≤ t := by
  simp [Config.isTolerance]

theorem isTolerance_of_inUnit {t : Binary64} (h : t.inUnit = true) : Config.isTolerance t = true :=
  (isTolerance_iff t).2 ⟨Binary64.isFinite_of_inUnit h, ((Binary64.inUnit_iff t).1 h).1⟩

/-- The slack is a tolerance itself, not below a millionth of a millionth and not above a hundred-millionth, and it is lost in the
greatest number. -/
theorem toleranceSlack_spec : Config.isTolerance toleranceSlack = true ∧
    ((Binary64.unitsPerOne : Int) ≤ 1000000000000 * toleranceSlack.units ∧
      100000000 * toleranceSlack.units ≤ Binary64.unitsPerOne) ∧
    (Binary64.greatest + toleranceSlack).isFinite = true := by decide +kernel

theorem isFinite_toleranceSlack : toleranceSlack.isFinite = true := ((isTolerance_iff _).1 toleranceSlack_spec.1).1

theorem toleranceSlack_nonneg : 0 ≤ toleranceSlack := ((isTolerance_iff _).1 toleranceSlack_spec.1).2

/-! ## The tolerance as a bound -/

/-- A difference that a greater tolerance does not allow is not allowed by a smaller one. -/
theorem Exceeds.anti {s t low high : Binary64} (hs : s.isFinite = true) (ht : t.isFinite = true) (hst : s ≤ t)
    (h : Exceeds t low high) : Exceeds s low high := by
  intro hle
  exact h (Binary64.le_trans hle (Binary64.add_le_add_right hs ht isFinite_toleranceSlack hst))

/-- A confidence above one that exceeds the tolerance exceeds it, too. -/
theorem Exceeds.mono {t low mid high : Binary64} (hl : low.isFinite = true) (hm : mid.isFinite = true)
    (hh : high.isFinite = true) (hle : mid ≤ high) (h : Exceeds t low mid) : Exceeds t low high := by
  intro hx
  exact h (Binary64.le_trans (Binary64.sub_le_sub_right hm hh hl hle) hx)

/-- No confidence exceeds a tolerance by lying below another one. -/
theorem Exceeds.not_le {t low high : Binary64} (ht : Config.isTolerance t = true) (hl : low.isFinite = true)
    (hh : high.isFinite = true) (h : Exceeds t low high) : ¬high ≤ low := by
  intro hle
  rw [isTolerance_iff] at ht
  apply h
  exact Binary64.le_trans (Binary64.sub_nonpos hh hl hle)
    (Binary64.add_nonneg ht.1 isFinite_toleranceSlack ht.2 toleranceSlack_nonneg)

/-! ## Clusters cut the arranged members -/

theorem splitFrom_flatten (t low : Binary64) (joined ms : List Member) :
    (splitFrom t low joined ms).flatten = joined ++ ms := by
  induction ms generalizing low joined with
  | nil => simp [splitFrom]
  | cons m ms ih =>
    rw [splitFrom]
    split
    · rw [ih, List.append_assoc, List.singleton_append]
    · rw [List.flatten_cons, ih, List.singleton_append]

theorem ne_nil_of_mem_splitFrom {t low : Binary64} {joined ms k : List Member} (hjoined : joined ≠ [])
    (hk : k ∈ splitFrom t low joined ms) : k ≠ [] := by
  induction ms generalizing low joined with
  | nil =>
    rw [splitFrom, List.mem_singleton] at hk
    exact hk ▸ hjoined
  | cons m ms ih =>
    rw [splitFrom] at hk
    split at hk
    · exact ih (by simp) hk
    · rcases List.mem_cons.1 hk with rfl | hk
      · exact hjoined
      · exact ih (by simp) hk

/-- No cluster is empty. -/
theorem ne_nil_of_mem_cluster {t : Binary64} {ms k : List Member} (hk : k ∈ clusters t ms) : k ≠ [] := by
  unfold clusters at hk
  split at hk
  · simp at hk
  · exact ne_nil_of_mem_splitFrom (by simp) hk

/-- The clusters put one after the other are the arranged members. -/
theorem clusters_flatten (t : Binary64) (ms : List Member) : (clusters t ms).flatten = Member.arrange ms := by
  unfold clusters
  split
  · rename_i h
    rw [h]
    rfl
  · rename_i m rest h
    rw [splitFrom_flatten, h, List.singleton_append]

/-- The clusters hold every member once. -/
theorem clusters_perm (t : Binary64) (ms : List Member) : (clusters t ms).flatten.Perm ms := by
  rw [clusters_flatten]
  exact Member.arrange_perm ms

theorem mem_of_mem_cluster {t : Binary64} {ms k : List Member} (hk : k ∈ clusters t ms) {m : Member} (hm : m ∈ k) :
    m ∈ ms :=
  (clusters_perm t ms).mem_iff.1 (List.mem_flatten.2 ⟨k, hk, hm⟩)

/-- Where all confidences are numbers, the arranged confidences ascend. -/
theorem pairwise_confidence {ms : List Member} (h : AllFinite ms) :
    (Member.arrange ms).Pairwise (fun a b => a.confidence ≤ b.confidence) := by
  have hn : ∀ m ∈ ms, m.confidence ≠ .nan := fun m hm => Binary64.ne_nan_of_isFinite (h m hm)
  have harr : ∀ m ∈ Member.arrange ms, m.confidence ≠ .nan := fun m hm => hn m ((Member.arrange_perm ms).mem_iff.1 hm)
  refine (Member.pairwise_arrange hn).imp_of_mem ?_
  intro a b ha hb hab
  exact Member.confidence_le_of_leByRank (harr a ha) (harr b hb) hab

/-- A cluster begins with its lowest confidence. -/
theorem head_le_of_mem_cluster {t : Binary64} {ms k : List Member} (h : AllFinite ms) (hk : k ∈ clusters t ms)
    {m x : Member} {rest : List Member} (hkm : k = m :: rest) (hx : x ∈ rest) : m.confidence ≤ x.confidence := by
  have hp := pairwise_confidence h
  rw [← clusters_flatten t, List.pairwise_flatten] at hp
  have hpk := hp.1 k hk
  rw [hkm, List.pairwise_cons] at hpk
  exact hpk.1 x hx

/-! ## Clusters lie apart -/

/-- The first member of each piece exceeds the tolerance over the first member of every piece before it. -/
theorem splitFrom_apart {t : Binary64} {j : Member} {js ms : List Member} (hfin : AllFinite (j :: ms))
    (hsort : (j :: ms).Pairwise (fun a b => a.confidence ≤ b.confidence)) :
    (splitFrom t j.confidence (j :: js) ms).Pairwise
      (fun k k' => ∀ a ∈ k.head?, ∀ b ∈ k'.head?, Exceeds t a.confidence b.confidence) := by
  induction ms generalizing j js with
  | nil => simp [splitFrom]
  | cons m ms ih =>
    rw [List.pairwise_cons, List.pairwise_cons] at hsort
    obtain ⟨hj, hm, hms⟩ := hsort
    have hjf := hfin j (by simp)
    have hmf := hfin m (by simp)
    rw [splitFrom]
    split
    · refine ih (fun x hx => ?_) (List.pairwise_cons.2 ⟨fun x hx => hj x (by simp [hx]), hms⟩)
      rcases List.mem_cons.1 hx with rfl | hx
      · exact hjf
      · exact hfin x (by simp [hx])
    · rename_i hexc
      refine List.pairwise_cons.2 ⟨?_, ih (fun x hx => hfin x (by simp [List.mem_cons.1 hx])) (List.pairwise_cons.2 ⟨hm, hms⟩)⟩
      intro k hk a ha b hb
      simp only [List.head?_cons, Option.mem_some_iff] at ha
      subst ha
      -- the first member of a later piece is `m` or comes behind it
      have hbm : b ∈ m :: ms := by
        have hflat := splitFrom_flatten t m.confidence [m] ms
        rw [List.singleton_append] at hflat
        rw [← hflat]
        exact List.mem_flatten.2 ⟨k, hk, List.mem_of_mem_head? hb⟩
      rcases List.mem_cons.1 hbm with rfl | hbm
      · exact hexc
      · exact Exceeds.mono hjf hmf (hfin b (by simp [hbm])) (hm b hbm) hexc

/-- The lowest confidences of two clusters lie further apart than the tolerance. -/
theorem clusters_apart {t : Binary64} {ms : List Member} (h : AllFinite ms) :
    (clusters t ms).Pairwise (fun k k' => ∀ a ∈ k.head?, ∀ b ∈ k'.head?, Exceeds t a.confidence b.confidence) := by
  have hsort := pairwise_confidence h
  have hperm := Member.arrange_perm ms
  unfold clusters
  split
  · exact List.Pairwise.nil
  · rename_i m rest harr
    rw [harr] at hsort hperm
    exact splitFrom_apart (fun x hx => h x (hperm.mem_iff.1 hx)) hsort

/-- The first member of a cluster exceeds the tolerance over the first member of every other cluster that it is not below. -/
theorem exceeds_of_mem_clusters {t : Binary64} {ms k k' : List Member} (ht : Config.isTolerance t = true) (h : AllFinite ms)
    (hk : k ∈ clusters t ms) (hk' : k' ∈ clusters t ms) (hne : k ≠ k') {a b : Member} (ha : a ∈ k.head?) (hb : b ∈ k'.head?)
    (hle : a.confidence ≤ b.confidence) : Exceeds t a.confidence b.confidence := by
  let Apart (k k' : List Member) : Prop := ∀ a ∈ k.head?, ∀ b ∈ k'.head?, Exceeds t a.confidence b.confidence
  have hsymm : Std.Symm (fun k k' => Apart k k' ∨ Apart k' k) := ⟨fun _ _ => Or.symm⟩
  have hapart : (clusters t ms).Pairwise (fun k k' => Apart k k' ∨ Apart k' k) := (clusters_apart h).imp Or.inl
  rcases hapart.forall hk hk' hne with hkk | hkk
  · exact hkk a ha b hb
  · have hfa := h a (mem_of_mem_cluster hk (List.mem_of_mem_head? ha))
    have hfb := h b (mem_of_mem_cluster hk' (List.mem_of_mem_head? hb))
    exact absurd hle (Exceeds.not_le ht hfb hfa (hkk b hb a ha))

/-! ## Members that lie apart -/

theorem splitFrom_singletons {t : Binary64} {j : Member} {ms : List Member}
    (h : (j :: ms).Pairwise (fun a b => Exceeds t a.confidence b.confidence)) :
    splitFrom t j.confidence [j] ms = (j :: ms).map (fun m => [m]) := by
  induction ms generalizing j with
  | nil => rfl
  | cons m ms ih =>
    rw [List.pairwise_cons] at h
    rw [splitFrom, if_neg (h.1 m (by simp)), ih h.2]
    rfl

/-- Members of which each one exceeds the tolerance over those that it is not below are clusters by themselves. -/
theorem clusters_singletons {t : Binary64} {ms : List Member} (hfin : AllFinite ms) (hnodup : ms.Nodup)
    (h : ∀ a ∈ ms, ∀ b ∈ ms, a ≠ b → a.confidence ≤ b.confidence → Exceeds t a.confidence b.confidence) :
    ∀ k ∈ clusters t ms, ∃ m ∈ ms, k = [m] := by
  have hsort := pairwise_confidence hfin
  have hperm := Member.arrange_perm ms
  have hne := hperm.nodup_iff.2 hnodup
  have hexc : (Member.arrange ms).Pairwise (fun a b => Exceeds t a.confidence b.confidence) := by
    refine (hsort.and hne).imp_of_mem ?_
    intro a b ha hb hab
    exact h a (hperm.mem_iff.1 ha) b (hperm.mem_iff.1 hb) hab.2 hab.1
  intro k hk
  unfold clusters at hk
  split at hk
  · simp at hk
  · rename_i m rest harr
    rw [harr] at hexc hperm
    rw [splitFrom_singletons hexc, List.mem_map] at hk
    obtain ⟨x, hx, rfl⟩ := hk
    exact ⟨x, hperm.mem_iff.1 hx, rfl⟩

end Forest

end TokenForest
