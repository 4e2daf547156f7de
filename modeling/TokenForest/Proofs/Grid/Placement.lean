import TokenForest.Grid.Placement
import TokenForest.Grid.Spot
import TokenForest.Proofs.Outcomes
import TokenForest.Proofs.Position
import TokenForest.Proofs.Resolution.Readings

/-!
# Placing records

Every record of a stream that is placed gets one cell, in the row, column and lane that it states, and no two records share a
position. Sorting the cells loses none, so the positions of the grid are those of the records.
-/

namespace TokenForest

namespace Grid

variable {staged : Bool} {grammar : Grammar} {placed out : List (Position × Symbol)} {number : Nat} {r : TokenRecord}
  {records : List TokenRecord} {grid : Grid}

/-! ## Helpers -/

/-- A position has the numbers that it is made of. -/
theorem make?_eq_ok {row column : Int} {lane : Option Int} {p : Position} (h : Position.make? row column lane = .ok p) :
    (p.row : Int) = row ∧ (p.column : Int) = column ∧ p.lane.map Int.ofNat = lane := by
  unfold Position.make? at h
  split at h <;> cases h <;> exact ⟨rfl, rfl, rfl⟩

/-- A placed record gets its cell at a position that was free. -/
theorem place_eq_ok {cell : Position × Symbol} (h : place staged grammar placed number r = .ok cell) :
    CellOf staged grammar number r cell ∧ cell.1 ∉ placed.map (·.1) := by
  rw [place] at h
  generalize hlane : (if staged then r.process else none) = lane at h
  simp only at h
  split at h
  · cases h
  · obtain ⟨p, hp, h⟩ := ok_of_bind h
    obtain ⟨hrow, hcolumn, hplane⟩ := make?_eq_ok (ok_of_mapError hp)
    split at h
    · cases h
    · rename_i hfree
      obtain ⟨symbol, hsymbol, h⟩ := ok_of_bind h
      cases h
      refine ⟨⟨fun x hx => ?_, fun x hx => ?_, hplane.trans hlane.symm, hsymbol⟩, ?_⟩
      · rw [hrow, hx, Option.getD_some]
      · rw [hcolumn, hx, Option.getD_some]
      · simpa using hfree

/-- The cells of a stream, in the order of its records. -/
theorem placeAll_eq_ok (h : placeAll staged grammar placed number records = .ok out)
    (hnodup : (placed.map (·.1)).Nodup) : ∃ places : List (Position × Symbol), out = places.reverse ++ placed ∧ places.length = records.length ∧
      (out.map (·.1)).Nodup ∧ ∀ k (hk : k < records.length) (hk' : k < places.length),
        CellOf staged grammar (number + k) records[k] places[k] := by
  induction records generalizing placed number with
  | nil =>
    cases h
    exact ⟨[], by simp, rfl, hnodup, by simp⟩
  | cons r records ih =>
    rw [placeAll] at h
    obtain ⟨cell, hcell, h⟩ := ok_of_bind h
    obtain ⟨hof, hfree⟩ := place_eq_ok hcell
    obtain ⟨places, rfl, hlength, hout, hplaces⟩ := ih h (by simpa using ⟨by simpa using hfree, hnodup⟩)
    refine ⟨cell :: places, by simp, by simp [hlength], hout, fun k hk hk' => ?_⟩
    cases k with
    | zero => exact hof
    | succ k =>
      have hnext := hplaces k (by simpa using hk) (by simpa using hk')
      rw [Nat.add_right_comm] at hnext
      exact hnext

/-- The grid of a stream holds the cells of its records, at positions of which no two are the same. -/
theorem organize_eq_ok (h : organize records staged grammar = .ok grid) :
    ∃ places : List (Position × Symbol), places.length = records.length ∧ grid.cells.Perm places ∧ (places.map (·.1)).Nodup ∧
      ∀ k (hk : k < records.length) (hk' : k < places.length), CellOf staged grammar (k + 1) records[k] places[k] := by
  obtain ⟨out, hout, h⟩ := ok_of_bind h
  cases h
  obtain ⟨places, rfl, hlength, hnodup, hplaces⟩ := placeAll_eq_ok hout (by simp)
  have hperm : (places.reverse ++ []).Perm places := by simp
  refine ⟨places, hlength, (List.mergeSort_perm _ _).trans hperm, ?_, fun k hk hk' => ?_⟩
  · exact (hperm.map (·.1)).nodup_iff.1 hnodup
  · rw [Nat.add_comm]
    exact hplaces k hk hk'

/-- No position of a grid has two cells. -/
theorem nodup_positions (h : organize records staged grammar = .ok grid) : grid.positions.Nodup := by
  obtain ⟨places, _, hcells, hnodup, _⟩ := organize_eq_ok h
  have hpositions : grid.positions.Perm (places.map (·.1)) := hcells.map Prod.fst
  exact hpositions.nodup_iff.2 hnodup

/-- The positions of a grid are in source order. -/
theorem pairwise_positions (h : organize records staged grammar = .ok grid) :
    grid.positions.Pairwise (fun p q => p.le q = true) := by
  obtain ⟨out, _, h⟩ := ok_of_bind h
  cases h
  unfold positions sortCells
  rw [List.pairwise_map]
  apply List.pairwise_mergeSort
  · exact fun a b c => Position.le_trans a.1 b.1 c.1
  · exact fun a b => Position.le_total a.1 b.1

/-- The positions of a grid come one before the other. -/
theorem pairwise_before (h : organize records staged grammar = .ok grid) : grid.positions.Pairwise Position.Before :=
  (pairwise_positions h).imp₂ (fun _ _ hle hne => Position.before_of_le hle hne) (nodup_positions h)

theorem symbolName_ne (number : Nat) (p : Position) : symbolName number p ≠ "" := by
  intro h
  have hlength := congrArg String.length h
  change ("sym_" ++ fiveDigits number ++ "_" ++ p.label).length = 0 at hlength
  have hfour : "sym_".length = 4 := rfl
  simp only [String.length_append] at hlength
  omega

/-- A record has a symbol when its position has a label, a hint is found for it and the symbol with its fields passes its checks. -/
theorem symbolOf_eq_ok_iff {p : Position} {s : Symbol} : symbolOf grammar number p r = .ok s ↔ hasLabel p = true ∧ s.fault? = none ∧
    ∃ hint, grammar.hintOf? r.symbolClass r.typeTag r.intentHint = some hint ∧
      s = ⟨symbolName number p, r.symbolClass, r.lexeme, r.typeTag, hint, r.score, r.stage, r.process, r.phase⟩ := by
  unfold symbolOf
  constructor
  · intro h
    split at h
    · cases h
    · rename_i hlabel
      split at h
      · cases h
      · rename_i hint hhint
        obtain ⟨hpasses, rfl⟩ := Symbol.check_eq_ok_iff.1 (ok_of_mapError h)
        exact ⟨by simpa using hlabel, hpasses, hint, hhint, rfl⟩
  · rintro ⟨hlabel, hpasses, hint, hhint, rfl⟩
    rw [hlabel, hhint]
    simp only [Bool.not_true, Bool.false_eq_true, if_false]
    rw [Symbol.check_eq_ok_iff.2 ⟨hpasses, rfl⟩, mapError_ok]

/-- The symbol of a placed record has passed its checks. -/
theorem fault?_symbolOf {p : Position} {s : Symbol} (h : symbolOf grammar number p r = .ok s) : s.fault? = none :=
  (symbolOf_eq_ok_iff.1 h).2.1

/-- Every symbol of a grid has passed its checks. -/
theorem fault?_of_mem_cells (h : organize records staged grammar = .ok grid) {cell : Position × Symbol}
    (hcell : cell ∈ grid.cells) : cell.2.fault? = none := by
  obtain ⟨places, hlength, hcells, _, hplaces⟩ := organize_eq_ok h
  obtain ⟨k, hk, rfl⟩ := List.mem_iff_getElem.1 (hcells.mem_iff.1 hcell)
  exact fault?_symbolOf (hplaces k (by omega) hk).symbol

/-- The grid of a stream has the cells of its records in source order. -/
theorem organize_of_perm (hplaced : placeAll grid.staged grammar [] 1 records = .ok out) (hperm : out.Perm grid.cells)
    (hsorted : grid.cells.Pairwise (fun a b => a.1.le b.1 = true)) (hnodup : (grid.cells.map (·.1)).Nodup) :
    organize records grid.staged grammar = .ok grid := by
  have hcells : sortCells out = grid.cells := Position.mergeSort_eq_of_perm hperm hsorted hnodup
  rw [organize, hplaced]
  change Except.ok (⟨grid.staged, sortCells out⟩ : Grid) = _
  rw [hcells]

/-- Records that come in source order are placed as they come. -/
theorem organize_of_ordered (hplaced : placeAll grid.staged grammar [] 1 records = .ok grid.cells.reverse)
    (hsorted : grid.cells.Pairwise (fun a b => a.1.le b.1 = true)) (hnodup : (grid.cells.map (·.1)).Nodup) :
    organize records grid.staged grammar = .ok grid :=
  organize_of_perm hplaced (List.reverse_perm _) hsorted hnodup

end Grid

end TokenForest
