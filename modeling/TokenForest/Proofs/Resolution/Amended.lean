import TokenForest.Proofs.Grid.Faults
import TokenForest.Proofs.Grid.Interleaving
import TokenForest.Proofs.Resolution.Places

/-!
# Amended records

A record is placed by what it states of its row, column and process and by the positions that are taken; the symbols there play no part.
So a record may be replaced by another one that states the same place: the grid stays as it is but for the symbol in its cell. There the
symbol has the row, the intent and the confidence that it has in place of the recorded one, as both are read off the other symbols of
the row.
-/

namespace TokenForest

/-- The records state one place. -/
structure TokenRecord.SamePlace (r r' : TokenRecord) : Prop where
  row : r.row = r'.row
  column : r.column = r'.column
  process : r.process = r'.process

namespace Grid

variable {staged : Bool} {grammar : Grammar} {placed placed' out : List (Position × Symbol)} {number k : Nat} {r r' : TokenRecord}
  {records : List TokenRecord} {grid : Grid} {p q : Position} {s s' : Symbol}

/-! ## Placing -/

/-- A record is placed by the positions that are taken. -/
theorem place_congr (h : placed.map (·.1) = placed'.map (·.1)) (number : Nat) (r : TokenRecord) :
    place staged grammar placed number r = place staged grammar placed' number r := by
  have hlane : ∀ lane, lanePlaces placed lane = lanePlaces placed' lane := by
    intro lane
    unfold lanePlaces
    rw [h]
  have hany : ∀ p : Position, placed.any (fun c => decide (c.1 = p)) = placed'.any (fun c => decide (c.1 = p)) := by
    intro p
    have hmap : ∀ cells : List (Position × Symbol), cells.any (fun c => decide (c.1 = p)) = (cells.map (·.1)).any (fun q => decide (q = p)) := by
      intro cells
      rw [List.any_map]
      rfl
    rw [hmap, hmap, h]
  unfold place
  simp only [currentRow_eq, nextColumn_eq, hlane, hany]

/-- Records get the same cells behind cells at the same positions. -/
theorem placeAll_congr (h : placed.map (·.1) = placed'.map (·.1)) (hall : placeAll staged grammar placed number records = .ok out) :
    ∃ later, out = later ++ placed ∧ placeAll staged grammar placed' number records = .ok (later ++ placed') := by
  induction records generalizing placed placed' number with
  | nil =>
    cases hall
    exact ⟨[], rfl, rfl⟩
  | cons r records ih =>
    rw [placeAll] at hall ⊢
    obtain ⟨cell, hcell, hall⟩ := ok_of_bind hall
    have hcells : (cell :: placed).map (·.1) = (cell :: placed').map (·.1) := by rw [List.map_cons, List.map_cons, h]
    obtain ⟨later, rfl, hall'⟩ := ih hcells hall
    refine ⟨later ++ [cell], by simp, ?_⟩
    rw [← place_congr h, hcell, ok_bind, hall']
    simp

theorem placeAll_append (placed : List (Position × Symbol)) (number : Nat) (front rest : List TokenRecord) :
    placeAll staged grammar placed number (front ++ rest) =
      placeAll staged grammar placed number front >>= fun placed => placeAll staged grammar placed (number + front.length) rest := by
  induction front generalizing placed number with
  | nil => rfl
  | cons r front ih =>
    rw [List.cons_append, placeAll, placeAll]
    cases place staged grammar placed number r with
    | error fault => rfl
    | ok cell =>
      have hnumber : number + 1 + front.length = number + (front.length + 1) := by omega
      rw [ok_bind, ok_bind, ih, List.length_cons, hnumber]

/-- What is placed before a record, the record itself, and what is placed behind it. -/
theorem split_of_placedAt (hgrid : organize records staged grammar = .ok grid) (hk : records[k]? = some r)
    (hp : PlacedAt staged grammar records k p) : ∃ earlier later s, placeAll staged grammar [] 1 (records.take k) = .ok earlier ∧
      place staged grammar earlier (k + 1) r = .ok (p, s) ∧
      placeAll staged grammar ((p, s) :: earlier) (k + 2) (records.drop (k + 1)) = .ok (later ++ (p, s) :: earlier) ∧
      grid = ⟨staged, sortCells (later ++ (p, s) :: earlier)⟩ := by
  obtain ⟨hlength, hget⟩ := List.getElem?_eq_some_iff.1 hk
  have htake : (records.take k).length = k := by simp; omega
  obtain ⟨s, earlier, hfront⟩ := hp
  have hplaced := hfront
  rw [List.take_succ_eq_append_getElem hlength, placeAll_append, hget, htake] at hplaced
  obtain ⟨before, hbefore, hplaced⟩ := ok_of_bind hplaced
  rw [placeAll] at hplaced
  obtain ⟨cell, hcell, hplaced⟩ := ok_of_bind hplaced
  cases hplaced
  obtain ⟨out, hout, hgrid⟩ := ok_of_bind hgrid
  cases hgrid
  have hlength' : (records.take (k + 1)).length = k + 1 := by simp; omega
  rw [← List.take_append_drop (k + 1) records, placeAll_append, hfront, ok_bind, hlength'] at hout
  have hnumber : 1 + (k + 1) = k + 2 := by omega
  rw [hnumber] at hout
  obtain ⟨later, rfl, _⟩ := placeAll_congr rfl hout
  rw [Nat.add_comm] at hcell
  exact ⟨earlier, later, s, hbefore, hcell, hout, rfl⟩

/-! ## Amending -/

/-- A cell, with another symbol when it is that of a position. -/
def amendCell (p : Position) (s : Symbol) (cell : Position × Symbol) : Position × Symbol := if cell.1 = p then (p, s) else cell

/-- The grid with another symbol in the cell of a position. -/
def amend (grid : Grid) (p : Position) (s : Symbol) : Grid := { grid with cells := grid.cells.map (amendCell p s) }

theorem fst_amendCell (p : Position) (s : Symbol) (cell : Position × Symbol) : (amendCell p s cell).1 = cell.1 := by
  unfold amendCell
  split
  · rename_i hp
    exact hp.symm
  · rfl

/-- Cells at other positions stay as they are. -/
theorem map_amendCell {cells : List (Position × Symbol)} (hp : p ∉ cells.map (·.1)) : cells.map (amendCell p s) = cells := by
  refine (List.map_congr_left fun cell hcell => if_neg ?_).trans (List.map_id cells)
  rintro rfl
  exact hp (List.mem_map_of_mem hcell)

theorem positions_amend (grid : Grid) (p : Position) (s : Symbol) : (grid.amend p s).positions = grid.positions := by
  unfold amend positions
  rw [List.map_map]
  exact List.map_congr_left fun cell _ => fst_amendCell p s cell

/-- The other cells keep their symbols. -/
theorem symbolAt?_amend_of_ne (hq : q ≠ p) : (grid.amend p s).symbolAt? q = grid.symbolAt? q := by
  unfold amend symbolAt?
  induction grid.cells with
  | nil => rfl
  | cons cell cells ih =>
    rw [List.map_cons, List.lookup_cons, List.lookup_cons, ih, fst_amendCell]
    split
    · rename_i hsame
      have hcell : ¬cell.1 = p := fun hp => hq ((eq_of_beq hsame).trans hp)
      unfold amendCell
      rw [if_neg hcell]
    · rfl

theorem symbolAt?_amend_self (hp : p ∈ grid.positions) : (grid.amend p s).symbolAt? p = some s := by
  obtain ⟨t, ht⟩ := exists_symbolAt? ((positions_amend grid p s).symm ▸ hp)
  obtain ⟨cell, _, hcell⟩ := List.mem_map.1 (mem_cells_of_symbolAt? ht)
  unfold amendCell at hcell
  split at hcell
  · cases hcell
    exact ht
  · rename_i hother
    exact absurd (congrArg Prod.fst hcell) hother

/-- A record that states the place of another one is placed there when its symbol passes its checks. -/
theorem place_of_samePlace (hsame : r.SamePlace r') (h : place staged grammar placed number r = .ok (p, s))
    (hsymbol : symbolOf grammar number p r' = .ok s') : place staged grammar placed number r' = .ok (p, s') := by
  have hlane : laneOf staged r = laneOf staged r' := by
    unfold laneOf
    rw [hsame.process]
  have hplace : placeOf? staged placed r = placeOf? staged placed r' := by
    unfold placeOf?
    rw [hlane, hsame.row, hsame.column]
  rw [place_eq] at h ⊢
  rw [hplace, hlane, hsame.row] at h
  split at h
  · cases h
  · rename_i hback
    obtain ⟨q, hq, h⟩ := ok_of_bind h
    split at h
    · cases h
    · rename_i hfree
      obtain ⟨_, _, heq⟩ := ok_of_map h
      cases heq
      rw [if_neg hback, hq, ok_bind, if_neg hfree, hsymbol]
      rfl

/-- Where a record is replaced by another one that states its place, the grid is amended at its position. -/
theorem organize_set (hgrid : organize records staged grammar = .ok grid) (hk : records[k]? = some r)
    (hp : PlacedAt staged grammar records k p) (hsame : r.SamePlace r') (hsymbol : symbolOf grammar (k + 1) p r' = .ok s') :
    organize (records.set k r') staged grammar = .ok (grid.amend p s') := by
  obtain ⟨hlength, _⟩ := List.getElem?_eq_some_iff.1 hk
  obtain ⟨earlier, later, s, hbefore, hplace, hrest, rfl⟩ := split_of_placedAt hgrid hk hp
  have hcells : ((p, s) :: earlier).map (·.1) = ((p, s') :: earlier).map (·.1) := rfl
  obtain ⟨later', hlater, hrest'⟩ := placeAll_congr hcells hrest
  obtain rfl := List.append_cancel_right hlater
  have hall : placeAll staged grammar [] 1 (records.set k r') = .ok (later ++ (p, s') :: earlier) := by
    have htake : (records.take k).length = k := by simp; omega
    rw [List.set_eq_take_append_cons_drop, if_pos hlength, placeAll_append, hbefore, ok_bind, placeAll, htake, Nat.add_comm 1 k,
      place_of_samePlace hsame hplace hsymbol, ok_bind]
    exact hrest'
  -- no other cell is at the position
  have hnodup : ((later ++ (p, s) :: earlier).map (·.1)).Nodup := by
    have hpositions := nodup_positions hgrid
    unfold positions sortCells at hpositions
    exact ((List.mergeSort_perm _ _).map _).nodup_iff.1 hpositions
  rw [List.map_append, List.map_cons, List.nodup_middle, List.nodup_cons, ← List.map_append, List.map_append, List.mem_append,
    not_or] at hnodup
  obtain ⟨⟨hlater', hearlier⟩, _⟩ := hnodup
  have hamend : (later ++ (p, s) :: earlier).map (amendCell p s') = later ++ (p, s') :: earlier := by
    have hself : amendCell p s' (p, s) = (p, s') := if_pos rfl
    rw [List.map_append, List.map_cons, map_amendCell hlater', map_amendCell hearlier, hself]
  have hsort : (sortCells (later ++ (p, s) :: earlier)).map (amendCell p s') = sortCells (later ++ (p, s') :: earlier) := by
    rw [← hamend]
    exact List.map_mergeSort fun a _ b _ => by rw [fst_amendCell, fst_amendCell]
  unfold organize
  rw [hall]
  exact congrArg (fun cells => Except.ok (⟨staged, cells⟩ : Grid)) hsort.symm

/-- The cell of a record has its symbol. -/
theorem symbolAt?_of_placedAt (hgrid : organize records staged grammar = .ok grid) (hk : records[k]? = some r)
    (hp : PlacedAt staged grammar records k p) : ∃ s, grid.symbolAt? p = some s ∧ symbolOf grammar (k + 1) p r = .ok s := by
  obtain ⟨earlier, later, s, _, hplace, _, hcells⟩ := split_of_placedAt hgrid hk hp
  have hmem : (p, s) ∈ grid.cells := by
    rw [hcells]
    exact (List.mergeSort_perm _ _).mem_iff.2 (by simp)
  exact ⟨s, symbolAt?_of_mem_cells (nodup_positions hgrid) hmem, (place_eq_ok hplace).1.symbol⟩

/-- A cell that is placed was there before, or a record gets it. -/
theorem exists_of_placeAll (h : placeAll staged grammar placed number records = .ok out) {cell : Position × Symbol}
    (hcell : cell ∈ out) : cell ∈ placed ∨ ∃ k < records.length, ∃ earlier,
      placeAll staged grammar placed number (records.take (k + 1)) = .ok (cell :: earlier) := by
  induction records generalizing placed number with
  | nil =>
    cases h
    exact Or.inl hcell
  | cons r records ih =>
    rw [placeAll] at h
    obtain ⟨first, hfirst, h⟩ := ok_of_bind h
    rcases ih h with hmem | ⟨k, hk, earlier, hall⟩
    · rcases List.mem_cons.1 hmem with rfl | hmem
      · refine Or.inr ⟨0, by simp, placed, ?_⟩
        rw [List.take_succ_cons, List.take_zero, placeAll, hfirst]
        rfl
      · exact Or.inl hmem
    · refine Or.inr ⟨k + 1, by simpa using hk, earlier, ?_⟩
      rw [List.take_succ_cons, placeAll, hfirst]
      exact hall

/-- Every position of a grid is that of a record. -/
theorem exists_placedAt (hgrid : organize records staged grammar = .ok grid) (hp : p ∈ grid.positions) :
    ∃ k r, records[k]? = some r ∧ PlacedAt staged grammar records k p := by
  obtain ⟨⟨q, s⟩, hcell, rfl⟩ := List.mem_map.1 hp
  obtain ⟨out, hout, h⟩ := ok_of_bind hgrid
  cases h
  rcases exists_of_placeAll hout ((List.mergeSort_perm _ _).mem_iff.1 hcell) with hmem | ⟨k, hk, earlier, hall⟩
  · simp at hmem
  · exact ⟨k, records[k], List.getElem?_eq_getElem hk, s, earlier, hall⟩

/-- A position keeps its neighbourhood in an amended grid. -/
theorem neighborhood_amend (grid : Grid) (p : Position) (s : Symbol) (q : Position) :
    (grid.amend p s).neighborhood q = grid.neighborhood q := by
  refine neighborhood_congr ?_ (positions_amend grid p s) q
  rfl

/-- A position does not stand beside itself. -/
theorem ne_of_beside (hnodup : grid.positions.Nodup) :
    (∀ q, (grid.beside p).1 = some q → q ≠ p) ∧ ∀ q, (grid.beside p).2 = some q → q ≠ p := by
  have hrow : (grid.rowPositions p.lane p.row).Nodup := (hnodup.filter _).filter _
  unfold beside around
  cases hindex : (grid.rowPositions p.lane p.row).idxOf? p with
  | none => simp
  | some i =>
    obtain ⟨hi, hp, _⟩ := List.idxOf?_eq_some_iff.1 hindex
    have hself : (grid.rowPositions p.lane p.row)[i]? = some p := by rw [List.getElem?_eq_getElem hi, hp]
    constructor
    · rintro q hq rfl
      simp only at hq
      split at hq
      · cases hq
      · have hsame := (List.getElem?_inj hi hrow).1 (hself.trans hq.symm)
        omega
    · rintro q hq rfl
      have hsame := (List.getElem?_inj hi hrow).1 (hself.trans hq.symm)
      omega

end Grid

namespace Context

variable {grid : Grid} {config : Config} {grammar : Grammar} {p : Position} {s t : Symbol}

theorem indexAt_amend : (standard (grid.amend p s) config grammar).indexAt p = (standard grid config grammar).indexAt p :=
  congrArg (fun n : Grid.Neighborhood => n.row.idxOf p) (Grid.neighborhood_amend grid p s p)

/-- The symbol of an amended cell stands in its row in place of the recorded one. -/
theorem rowAt_amend (hnodup : grid.positions.Nodup) (hp : p ∈ grid.positions) :
    (standard (grid.amend p s) config grammar).rowAt p =
      ((standard grid config grammar).rowAt p).set ((standard grid config grammar).indexAt p) s := by
  have hrow : (grid.rowPositions p.lane p.row).Nodup := (hnodup.filter _).filter _
  have hmem : p ∈ grid.rowPositions p.lane p.row := Grid.mem_rowPositions.2 ⟨hp, rfl, rfl⟩
  have hneighborhood : ((standard (grid.amend p s) config grammar).grid.neighborhood p).row = grid.rowPositions p.lane p.row :=
    congrArg Grid.Neighborhood.row (Grid.neighborhood_amend grid p s p)
  unfold rowAt
  rw [hneighborhood]
  exact filterMap_eq_set hrow hmem (isSome_symbolAt? (c := standard grid config grammar))
    (fun q _ hq => Grid.symbolAt?_amend_of_ne hq) (Grid.symbolAt?_amend_self hp)

/-- The symbol of an amended cell has the intent that it has in place of the recorded one. -/
theorem intentAt_amend (hnodup : grid.positions.Nodup) (hp : p ∈ grid.positions) :
    (standard (grid.amend p s) config grammar).intentAt p = (standard grid config grammar).intentAs p s := by
  unfold intentAt intentAs
  rw [rowAt_amend hnodup hp, indexAt_amend]
  rfl

/-- What stands in a cell does not show in the confidence of a symbol that is scored there. -/
theorem breakdown_amend (hnodup : grid.positions.Nodup) :
    (standard (grid.amend p s) config grammar).breakdown t p = (standard grid config grammar).breakdown t p := by
  have hbeside : (grid.amend p s).beside p = grid.beside p := by
    unfold Grid.beside Grid.rowPositions Grid.lanePositions
    rw [Grid.positions_amend]
  obtain ⟨hleft, hright⟩ := Grid.ne_of_beside (p := p) hnodup
  have hsymbol : ∀ o : Option Position, (∀ q, o = some q → q ≠ p) → o.bind (grid.amend p s).symbolAt? = o.bind grid.symbolAt? := by
    intro o ho
    cases o with
    | none => rfl
    | some q => exact Grid.symbolAt?_amend_of_ne (ho q rfl)
  have hscore : Scoring.standard t p (grid.amend p s) config grammar = Scoring.standard t p grid config grammar := by
    unfold Scoring.standard
    simp only
    rw [hbeside, hsymbol _ hleft, hsymbol _ hright]
  unfold breakdown weights breakdownWith standard
  simp only [Scorer.standard, hscore]

end Context

end TokenForest
