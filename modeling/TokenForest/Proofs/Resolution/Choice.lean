import TokenForest.Proofs.Forest.Settled
import TokenForest.Proofs.Outcomes
import TokenForest.Resolution

/-!
# The choice among readings

The best confidence of a resolution is the greatest of those that were found. Of the readings that passed, the one that is chosen is
preferred to all before it, and none behind it is preferred to it.
-/

namespace TokenForest

namespace Resolution

variable {original : Breakdown} {intent : Intent} {tried : List (Candidate × Option Passing)} {passing : List Passing}
  {x y best : Passing}

/-! ## The best confidence -/

/-- The best confidence is that of the symbol or of a candidate, and none of these is above it. -/
theorem bestConfidence_ofTried (horiginal : original.psi.Settled) (htried : ∀ t ∈ tried, t.1.psi.Settled) :
    (ofTried original intent tried).bestConfidence ∈ original.psi :: tried.map (·.1.psi) ∧
      ∀ psi ∈ original.psi :: tried.map (·.1.psi), psi ≤ (ofTried original intent tried).bestConfidence := by
  have hsettled : ∀ psi ∈ original.psi :: tried.map (·.1.psi), psi.Settled := by
    intro psi hpsi
    rcases List.mem_cons.1 hpsi with rfl | hpsi
    · exact horiginal
    · obtain ⟨t, ht, rfl⟩ := List.mem_map.1 hpsi
      exact htried t ht
  have hfold : (tried.map (·.1)).foldl (fun best c => Binary64.max best c.psi) original.psi =
      (tried.map (·.1.psi)).foldl Binary64.max original.psi := by
    rw [List.foldl_map, List.foldl_map]
  obtain ⟨hmem, hle⟩ := Binary64.foldl_max fun psi hpsi => (hsettled psi hpsi).ne_nan
  have hbest : (ofTried original intent tried).bestConfidence = (tried.map (·.1.psi)).foldl Binary64.max original.psi := by
    unfold ofTried
    simp only
    rw [hfold, (hsettled _ hmem).2]
  rw [hbest]
  exact ⟨hmem, hle⟩

/-! ## The choice -/

/-- The alternative that is chosen is one of those that passed. -/
theorem mem_of_choose (h : choose passing = some best) : best ∈ passing := by
  cases passing with
  | nil => cases h
  | cons first rest =>
    have hfold : ∀ (rest : List Passing) (first : Passing),
        rest.foldl (fun chosen next => if preferred chosen next then next else chosen) first ∈ first :: rest := by
      intro rest
      induction rest with
      | nil => simp
      | cons next rest ih =>
        intro first
        rw [List.foldl_cons]
        have hmem := ih (if preferred first next then next else first)
        rcases List.mem_cons.1 hmem with hmem | hmem
        · rw [hmem]
          split <;> simp
        · exact List.mem_cons_of_mem _ (List.mem_cons_of_mem _ hmem)
    unfold choose at h
    cases h
    exact hfold rest first

/-- A resolution chooses a reading when one of those that were tried passed. -/
theorem chosen_ofTried_eq_none_iff : (ofTried original intent tried).chosen = none ↔ ∀ t ∈ tried, t.2 = none := by
  have hchoose : ∀ passing : List Passing, choose passing = none ↔ passing = [] := by
    intro passing
    cases passing <;> simp [choose]
  unfold ofTried
  simp [hchoose]

/-- A symbol that a resolution chooses comes from the alternative that it chose. -/
theorem chosen_ofTried_eq_some_iff {s : Symbol} {b : Breakdown} : (ofTried original intent tried).chosen = some (s, b) ↔
    ∃ best, choose (tried.filterMap (·.2)) = some best ∧ best.symbol = s ∧ best.breakdown = b := by
  unfold ofTried
  simp only [Option.map_eq_some_iff, Prod.mk.injEq]

/-- More confidence is preferred, and of the same confidence more support. -/
theorem preferred_iff (hx : x.breakdown.psi ≠ .nan) (hy : y.breakdown.psi ≠ .nan) : preferred x y = true ↔
    x.breakdown.psi.rank < y.breakdown.psi.rank ∨ x.breakdown.psi.rank = y.breakdown.psi.rank ∧ x.support < y.support := by
  unfold preferred
  simp only [Bool.or_eq_true, Bool.and_eq_true, Bool.not_eq_true', decide_eq_true_eq, decide_eq_false_iff_not, Binary64.lt_iff, hx, hy,
    ne_eq, not_false_eq_true, true_and]
  omega

theorem preferred_trans {z : Passing} (hx : x.breakdown.psi ≠ .nan) (hy : y.breakdown.psi ≠ .nan) (hz : z.breakdown.psi ≠ .nan)
    (hxy : preferred x y = true) (hyz : preferred y z = true) : preferred x z = true := by
  rw [preferred_iff hx hy] at hxy
  rw [preferred_iff hy hz] at hyz
  rw [preferred_iff hx hz]
  omega

/-- What is preferred to an alternative is preferred to all that are no better than it. -/
theorem preferred_of_not_preferred {z : Passing} (hx : x.breakdown.psi ≠ .nan) (hy : y.breakdown.psi ≠ .nan)
    (hz : z.breakdown.psi ≠ .nan) (hxy : ¬preferred x y = true) (hxz : preferred x z = true) : preferred y z = true := by
  rw [preferred_iff hx hy] at hxy
  rw [preferred_iff hx hz] at hxz
  rw [preferred_iff hy hz]
  omega

theorem choose_cons_cons (first next : Passing) (rest : List Passing) :
    choose (first :: next :: rest) = choose ((if preferred first next then next else first) :: rest) := rfl

/-- The chosen alternative is preferred to every one before it, and no one behind it is preferred to it. -/
theorem exists_of_choose (hpsi : ∀ x ∈ passing, x.breakdown.psi ≠ .nan) (h : choose passing = some best) :
    ∃ front back, passing = front ++ best :: back ∧ (∀ x ∈ front, preferred x best = true) ∧
      ∀ y ∈ back, preferred best y = false := by
  cases passing with
  | nil => cases h
  | cons first rest =>
    induction rest generalizing first with
    | nil =>
      cases h
      exact ⟨[], [], rfl, by simp, by simp⟩
    | cons next rest ih =>
      have hfirst := hpsi first (by simp)
      have hnext := hpsi next (by simp)
      have hbest := hpsi best (mem_of_choose h)
      rw [choose_cons_cons] at h
      split at h
      · rename_i hbetter
        obtain ⟨front, back, hsplit, hfront, hback⟩ := ih next (fun x hx => hpsi x (List.mem_cons_of_mem _ hx)) h
        refine ⟨first :: front, back, by rw [hsplit, List.cons_append], ?_, hback⟩
        rw [List.forall_mem_cons]
        refine ⟨?_, hfront⟩
        -- the first one is worse than the next one, which is chosen or worse than the one chosen
        cases front with
        | nil =>
          obtain ⟨rfl, _⟩ := List.cons.inj hsplit
          exact hbetter
        | cons head front =>
          obtain ⟨rfl, _⟩ := List.cons.inj hsplit
          exact preferred_trans hfirst hnext hbest hbetter (hfront next (by simp))
      · rename_i hkept
        have hothers : ∀ x ∈ first :: rest, x.breakdown.psi ≠ .nan :=
          List.forall_mem_cons.2 ⟨hfirst, fun x hx => hpsi x (by simp [hx])⟩
        obtain ⟨front, back, hsplit, hfront, hback⟩ := ih first hothers h
        cases front with
        | nil =>
          obtain ⟨rfl, rfl⟩ := List.cons.inj hsplit
          exact ⟨[], next :: rest, rfl, by simp, List.forall_mem_cons.2 ⟨by simpa using hkept, hback⟩⟩
        | cons head front =>
          obtain ⟨rfl, rfl⟩ := List.cons.inj hsplit
          obtain ⟨hworse, hfront⟩ := List.forall_mem_cons.1 hfront
          -- the next one is no better than the first one, which is worse than the one chosen
          have hnextWorse := preferred_of_not_preferred hfirst hnext hbest hkept hworse
          exact ⟨first :: next :: front, back, rfl, by simpa using ⟨hworse, hnextWorse, hfront⟩, hback⟩

/-! ## The state of a resolution -/

theorem status_eq_resolved_iff {r : Resolution} : r.status = .resolved ↔ r.chosen ≠ none := by
  unfold status
  cases r.chosen <;> simp

theorem status_eq_manualReview_iff {r : Resolution} : r.status = .manualReview ↔ r.chosen = none := by
  unfold status
  cases r.chosen <;> simp

theorem status_ne_accepted (r : Resolution) : r.status ≠ .accepted := by
  unfold status
  cases r.chosen <;> simp

end Resolution

end TokenForest
