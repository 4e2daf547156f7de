import TokenForest.Forest.Member
import TokenForest.Proofs.Binary64.Order
import TokenForest.Proofs.Position

/-!
# The arrangement of a level

Arranging the members of a level loses none and repeats none, whatever their confidences are. Where all confidences are
numbers, the members come out in ascending order of confidence.
-/

namespace TokenForest

namespace Forest

/-! ## The order of keys -/

theorem rankLe_total (a b : (Int × Int × Int) × Nat × String) : rankLe a b = true ∨ rankLe b a = true := by
  by_cases h : a.1 = b.1
  · have hs := String.le_total a.2.2 b.2.2
    simp only [rankLe, h, if_pos, Bool.or_eq_true, Bool.and_eq_true, decide_eq_true_eq]
    rcases Nat.lt_trichotomy a.2.1 b.2.1 with hn | hn | hn
    · exact Or.inl (Or.inl hn)
    · rcases hs with hs | hs
      · exact Or.inl (Or.inr ⟨hn, hs⟩)
      · exact Or.inr (Or.inr ⟨hn.symm, hs⟩)
    · exact Or.inr (Or.inl hn)
  · simp only [rankLe, h, Ne.symm h, if_false]
    exact Position.keyLe_total _ _

theorem rankLe_trans {a b c : (Int × Int × Int) × Nat × String} (h : rankLe a b = true) (h' : rankLe b c = true) :
    rankLe a c = true := by
  by_cases hab : a.1 = b.1
  · by_cases hbc : b.1 = c.1
    · simp only [rankLe, hab, hbc, if_pos, Bool.or_eq_true, Bool.and_eq_true, decide_eq_true_eq] at *
      rcases h with h | h <;> rcases h' with h' | h'
      · exact Or.inl (Nat.lt_trans h h')
      · exact Or.inl (h'.1 ▸ h)
      · exact Or.inl (h.1 ▸ h')
      · exact Or.inr ⟨h.1.trans h'.1, String.le_trans h.2 h'.2⟩
    · simp only [rankLe, hab, hbc, if_false] at h' ⊢
      exact h'
  · have hkey : Position.keyLe a.1 b.1 = true := by simpa only [rankLe, hab, if_false] using h
    by_cases hbc : b.1 = c.1
    · have hac : a.1 ≠ c.1 := hbc ▸ hab
      simp only [rankLe, hac, if_false]
      exact hbc ▸ hkey
    · have hkey' : Position.keyLe b.1 c.1 = true := by simpa only [rankLe, hbc, if_false] using h'
      have hac : a.1 ≠ c.1 := fun e => hab (Position.keyLe_antisymm hkey (e ▸ hkey'))
      simp only [rankLe, hac, if_false]
      exact Position.keyLe_trans hkey hkey'

namespace Member

/-- The order of members by the rank of their confidence, then by key: total also where a confidence is not a number. -/
def leByRank (a b : Member) : Bool :=
  decide (a.confidence.rank < b.confidence.rank)
    || (decide (a.confidence.rank = b.confidence.rank) && rankLe a.key b.key)

theorem leByRank_iff (a b : Member) : leByRank a b = true ↔ a.confidence.rank < b.confidence.rank ∨
    a.confidence.rank = b.confidence.rank ∧ rankLe a.key b.key = true := by
  simp [leByRank]

theorem leByRank_total (a b : Member) : (leByRank a b || leByRank b a) = true := by
  rw [Bool.or_eq_true, leByRank_iff, leByRank_iff]
  rcases Int.lt_trichotomy a.confidence.rank b.confidence.rank with h | h | h
  · exact Or.inl (Or.inl h)
  · rcases rankLe_total a.key b.key with hk | hk
    · exact Or.inl (Or.inr ⟨h, hk⟩)
    · exact Or.inr (Or.inr ⟨h.symm, hk⟩)
  · exact Or.inr (Or.inl h)

theorem leByRank_trans (a b c : Member) (h : leByRank a b = true) (h' : leByRank b c = true) : leByRank a c = true := by
  rw [leByRank_iff] at *
  rcases h with h | h <;> rcases h' with h' | h'
  · exact Or.inl (by omega)
  · exact Or.inl (by omega)
  · exact Or.inl (by omega)
  · exact Or.inr ⟨by omega, rankLe_trans h.2 h'.2⟩

/-- Members whose confidences are numbers are in the order of ranks. -/
theorem le_eq_leByRank {a b : Member} (ha : a.confidence ≠ .nan) (hb : b.confidence ≠ .nan) : le a b = leByRank a b := by
  have hlt := Binary64.lt_iff a.confidence b.confidence
  have hgt := Binary64.lt_iff b.confidence a.confidence
  simp only [ha, hb, ne_eq, not_false_eq_true, true_and] at hlt hgt
  simp only [le, leByRank, hlt, hgt]
  rcases Int.lt_trichotomy a.confidence.rank b.confidence.rank with h | h | h
  · simp [h]
  · simp [h]
  · have h1 : ¬a.confidence.rank < b.confidence.rank := by omega
    have h2 : a.confidence.rank ≠ b.confidence.rank := by omega
    simp [h, h1, h2]

/-! ## Arranging keeps the members -/

theorem continueRun_append (follows : Member → Member → Bool) (last : Member) (ms : List Member) :
    (continueRun follows last ms).1 ++ (continueRun follows last ms).2 = ms := by
  induction ms generalizing last with
  | nil => rfl
  | cons m ms ih =>
    rw [continueRun]
    split
    · simp [ih m]
    · rfl

theorem frontRun_perm (ms : List Member) : ((frontRun ms).1 ++ (frontRun ms).2).Perm ms := by
  unfold frontRun
  split
  · rename_i a b rest
    split
    · have h := continueRun_append (fun x y => y.precedes x) b rest
      calc ((a :: b :: (continueRun (fun x y => y.precedes x) b rest).1).reverse
            ++ (continueRun (fun x y => y.precedes x) b rest).2).Perm
            (a :: b :: (continueRun (fun x y => y.precedes x) b rest).1
              ++ (continueRun (fun x y => y.precedes x) b rest).2) := (List.reverse_perm _).append_right _
        _ = a :: b :: rest := by rw [List.cons_append, List.cons_append, h]
    · have h := continueRun_append (fun x y => !y.precedes x) b rest
      exact List.Perm.of_eq (by rw [List.cons_append, List.cons_append, h])
  · simp

theorem insertByHalves_perm (m : Member) (arranged : List Member) : (insertByHalves m arranged).Perm (m :: arranged) := by
  fun_induction insertByHalves m arranged with
  | case1 arranged half h middle _ ih =>
    have hsplit : arranged.take half ++ middle :: arranged.drop (half + 1) = arranged := by
      rw [← List.drop_eq_getElem_cons h, List.take_append_drop]
    calc (insertByHalves m (arranged.take half) ++ middle :: arranged.drop (half + 1)).Perm
          (m :: arranged.take half ++ middle :: arranged.drop (half + 1)) := ih.append_right _
      _ = m :: arranged := by rw [List.cons_append, hsplit]
  | case2 arranged half h middle _ ih =>
    have hsplit : arranged.take half ++ middle :: arranged.drop (half + 1) = arranged := by
      rw [← List.drop_eq_getElem_cons h, List.take_append_drop]
    calc (arranged.take half ++ middle :: insertByHalves m (arranged.drop (half + 1))).Perm
          (arranged.take half ++ middle :: m :: arranged.drop (half + 1)) := (ih.cons middle).append_left _
      _ |>.Perm (arranged.take half ++ m :: middle :: arranged.drop (half + 1)) :=
          (List.Perm.swap m middle _).append_left _
      _ |>.Perm (m :: (arranged.take half ++ middle :: arranged.drop (half + 1))) := List.perm_middle
      _ = m :: arranged := by rw [hsplit]
  | case3 arranged half h =>
    have hnil : arranged = [] := by
      cases arranged with
      | nil => rfl
      | cons a rest =>
        have : (a :: rest).length / 2 < (a :: rest).length := Nat.div_lt_self (by simp) (by omega)
        exact absurd this h
    rw [hnil]

theorem insertAll_perm (ms : List Member) : (insertAll ms).Perm ms := by
  have hfold : ∀ (left run : List Member),
      (left.foldl (fun arranged m => insertByHalves m arranged) run).Perm (run ++ left) := by
    intro left
    induction left with
    | nil => intro run; simp
    | cons m left ih =>
      intro run
      refine (ih _).trans (((insertByHalves_perm m run).append_right left).trans ?_)
      exact List.perm_middle.symm
  exact (hfold _ _).trans (frontRun_perm ms)

/-- Arranging members loses none and repeats none. -/
theorem arrange_perm (ms : List Member) : (arrange ms).Perm ms := by
  unfold arrange
  split
  · exact insertAll_perm ms
  · exact List.mergeSort_perm _ _

/-- Members whose confidences are numbers are arranged in ascending order. -/
theorem pairwise_arrange {ms : List Member} (h : ∀ m ∈ ms, m.confidence ≠ .nan) :
    (arrange ms).Pairwise (fun a b => leByRank a b = true) := by
  have hany : ms.any (fun m => decide (m.confidence = .nan)) = false := by
    simpa using h
  have hsort : ms.mergeSort le = ms.mergeSort leByRank := by
    have := List.map_mergeSort (r := le) (s := leByRank) (f := id) (l := ms)
      (fun a ha b hb => le_eq_leByRank (h a ha) (h b hb))
    simpa using this
  rw [arrange, hany, hsort]
  exact List.pairwise_mergeSort leByRank_trans leByRank_total ms

/-- Members in ascending order have ascending confidences. -/
theorem confidence_le_of_leByRank {a b : Member} (ha : a.confidence ≠ .nan) (hb : b.confidence ≠ .nan)
    (h : leByRank a b = true) : a.confidence ≤ b.confidence := by
  rw [leByRank_iff] at h
  rw [Binary64.le_iff]
  exact ⟨ha, hb, by omega⟩

/-! ## The first member -/

/-- The first member by key is one of the members. -/
theorem first_mem (m : Member) (rest : List Member) : first m rest ∈ m :: rest := by
  induction rest generalizing m with
  | nil => simp [first]
  | cons x rest ih =>
    rw [first, List.foldl_cons, ← first]
    have h := ih (if rankLe m.key x.key then m else x)
    rcases List.mem_cons.1 h with h | h
    · rw [h]
      split <;> simp
    · simp [h]

end Member

end Forest

end TokenForest
