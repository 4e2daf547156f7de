import TokenForest.Proofs.Grid.Faults

/-!
# Well-placed streams

Where the records of a stream belong is said without a grid: each record has a lane, a row and a column, stated by itself or read off
the records before it. A stream is well-placed when the rows of every lane ascend from 0, no column and no lane is negative, and no two
records belong to one place. One more record keeps a stream well-placed unless it is refused for one of three reasons.
-/

namespace TokenForest

namespace Grid

namespace Spot

variable {staged : Bool} {before earlier : List Spot} {s : Spot} {r : TokenRecord}

/-! ## The spots of a stream -/

theorem spotsFrom_append (staged : Bool) (before : List Spot) (front rest : List TokenRecord) :
    spotsFrom staged before (front ++ rest) =
      spotsFrom staged before front ++ spotsFrom staged ((spotsFrom staged before front).reverse ++ before) rest := by
  induction front generalizing before with
  | nil => rfl
  | cons r front ih =>
    rw [List.cons_append, spotsFrom, spotsFrom, ih, List.cons_append, List.reverse_cons, List.append_assoc]
    rfl

theorem spots_concat (staged : Bool) (front : List TokenRecord) (r : TokenRecord) :
    spots staged (front ++ [r]) = spots staged front ++ [behind staged front r] := by
  unfold behind spots
  rw [spotsFrom_append, List.append_nil]
  rfl

theorem spots_prefix (staged : Bool) (front rest : List TokenRecord) : spots staged front <+: spots staged (front ++ rest) := by
  unfold spots
  rw [spotsFrom_append]
  exact List.prefix_append _ _

/-- An inferred column is not used in its row. -/
theorem column_lt_freeColumn (hs : s ∈ before) : s.column < freeColumn before s.lane s.row := by
  have hmem : s.column ∈ usedColumns before s.lane s.row := List.mem_map_of_mem (List.mem_filter.2 ⟨hs, by simp⟩)
  unfold freeColumn
  cases hmax : (usedColumns before s.lane s.row).max? with
  | none =>
    rw [List.max?_eq_none_iff] at hmax
    rw [hmax] at hmem
    cases hmem
  | some greatest =>
    have := (List.max?_eq_some_iff.1 hmax).2 _ hmem
    simp only [Option.elim_some]
    omega

/-- A record that does not state its column belongs to a place of its own. -/
theorem ofRecord_notMem (hcolumn : r.column = none) : ofRecord staged before r ∉ before := by
  intro hmem
  have hlt := column_lt_freeColumn hmem
  simp only [ofRecord, hcolumn, Option.getD_none] at hlt
  omega

/-! ## Well-placed streams -/

theorem refusal?_eq_none_iff : refusal? before s = none ↔
    lastRow before s.lane ≤ s.row ∧ 0 ≤ s.column ∧ (∀ l ∈ s.lane, 0 ≤ l) ∧ s ∉ before := by
  unfold refusal?
  by_cases hrow : s.row < lastRow before s.lane
  · rw [if_pos hrow]
    exact iff_of_false nofun fun h => absurd h.1 (Int.not_le.2 hrow)
  · rw [if_neg hrow]
    by_cases hneg : s.column < 0 ∨ ∃ l ∈ s.lane, l < 0
    · rw [if_pos hneg]
      refine iff_of_false nofun fun ⟨_, hcolumn, hlane, _⟩ => ?_
      rcases hneg with hneg | ⟨l, hl, hneg⟩
      · exact absurd hcolumn (Int.not_le.2 hneg)
      · exact absurd (hlane l hl) (Int.not_le.2 hneg)
    · rw [if_neg hneg]
      rw [not_or] at hneg
      by_cases hmem : s ∈ before
      · rw [if_pos hmem]
        exact iff_of_false nofun fun h => h.2.2.2 hmem
      · rw [if_neg hmem]
        refine iff_of_true rfl ⟨Int.not_lt.1 hrow, Int.not_lt.1 hneg.1, fun l hl => ?_, hmem⟩
        exact Int.not_lt.1 fun h => hneg.2 ⟨l, hl, h⟩

theorem mem_of_refusal? (h : refusal? before s = some "duplicate_position") : s ∈ before := by
  unfold refusal? at h
  split at h
  · simp at h
  · split at h
    · simp at h
    · split at h
      · assumption
      · cases h

/-- A record that does not state its column is not refused as a duplicate. -/
theorem isSome_column_of_refusal? (h : refusal? before (ofRecord staged before r) = some "duplicate_position") :
    r.column.isSome = true := by
  cases hcolumn : r.column with
  | none => exact absurd (mem_of_refusal? h) (ofRecord_notMem hcolumn)
  | some x => rfl

theorem wellPlaced_nil : WellPlaced [] := ⟨by simp, by simp, by simp, List.nodup_nil⟩

/-- What is left of a well-placed stream is well-placed. -/
theorem WellPlaced.sublist {part all : List Spot} (h : WellPlaced all) (hsub : part.Sublist all) : WellPlaced part where
  rows lane := (h.rows lane).sublist (((hsub.filter _).map _).cons_cons 0)
  columns s hs := h.columns s (hsub.subset hs)
  lanes s hs := h.lanes s (hsub.subset hs)
  distinct := h.distinct.sublist hsub

/-- One more number ascends when it is not below the last one. -/
theorem pairwise_concat_iff {xs : List Int} {x : Int} : (0 :: (xs ++ [x])).Pairwise (· ≤ ·) ↔
    (0 :: xs).Pairwise (· ≤ ·) ∧ xs.getLast?.getD 0 ≤ x := by
  rw [← List.cons_append, List.pairwise_append]
  constructor
  · rintro ⟨hxs, _, hle⟩
    refine ⟨hxs, hle _ ?_ x (by simp)⟩
    cases hlast : xs.getLast? with
    | none => simp
    | some y => simpa using Or.inr (List.mem_of_getLast? hlast)
  · rintro ⟨hxs, hle⟩
    refine ⟨hxs, List.pairwise_singleton _ _, fun a ha b hb => ?_⟩
    rw [List.mem_singleton] at hb
    subst hb
    rcases List.eq_nil_or_concat xs with rfl | ⟨ys, y, rfl⟩
    · simpa using (List.mem_singleton.1 ha) ▸ hle
    · -- the last number is not below any before it
      rw [List.concat_eq_append] at hxs ha hle
      rw [List.getLast?_concat, Option.getD_some] at hle
      rw [← List.cons_append, List.pairwise_append] at hxs
      rw [← List.cons_append, List.mem_append, List.mem_singleton] at ha
      rcases ha with ha | rfl
      · exact Int.le_trans (hxs.2.2 a ha y (by simp)) hle
      · exact hle

theorem lastRow_reverse (earlier : List Spot) (lane : Option Int) :
    lastRow earlier.reverse lane = ((earlier.filter (fun s => decide (s.lane = lane))).map (·.row)).getLast?.getD 0 := by
  unfold lastRow
  rw [← List.head?_filter, List.filter_reverse, List.head?_reverse, List.getLast?_map]

/-- One more spot keeps a stream well-placed exactly when it is not refused. -/
theorem wellPlaced_concat : WellPlaced (earlier ++ [s]) ↔ WellPlaced earlier ∧ refusal? earlier.reverse s = none := by
  rw [refusal?_eq_none_iff, lastRow_reverse, List.mem_reverse]
  have hown : ((earlier ++ [s]).filter (fun x => decide (x.lane = s.lane))).map (·.row) =
      (earlier.filter (fun x => decide (x.lane = s.lane))).map (·.row) ++ [s.row] := by simp
  constructor
  · intro h
    refine ⟨h.sublist (List.sublist_append_left _ _), ?_, h.columns s (by simp), h.lanes s (by simp), ?_⟩
    · have hrows := h.rows s.lane
      rw [hown] at hrows
      exact (pairwise_concat_iff.1 hrows).2
    · exact fun hs => (List.nodup_append.1 h.distinct).2.2 s hs s (by simp) rfl
  · rintro ⟨h, hrow, hcolumn, hlane, hfree⟩
    refine ⟨fun lane => ?_, fun x hx => ?_, fun x hx => ?_, ?_⟩
    · by_cases hsame : s.lane = lane
      · subst hsame
        rw [hown]
        exact pairwise_concat_iff.2 ⟨h.rows s.lane, hrow⟩
      · have hother : (earlier ++ [s]).filter (fun x => decide (x.lane = lane)) = earlier.filter (fun x => decide (x.lane = lane)) := by
          simp [hsame]
        rw [hother]
        exact h.rows lane
    · rcases List.mem_append.1 hx with hx | hx
      · exact h.columns x hx
      · exact (List.mem_singleton.1 hx) ▸ hcolumn
    · rcases List.mem_append.1 hx with hx | hx
      · exact h.lanes x hx
      · exact (List.mem_singleton.1 hx) ▸ hlane
    · exact List.nodup_append.2 ⟨h.distinct, by simp, fun a ha b hb hab => hfree (by rwa [← List.mem_singleton.1 hb, ← hab])⟩

end Spot

end Grid

end TokenForest
