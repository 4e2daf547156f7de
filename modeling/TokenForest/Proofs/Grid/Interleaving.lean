import TokenForest.Proofs.Erasure
import TokenForest.Proofs.Grid.Erased
import TokenForest.Proofs.Grid.Placement
import TokenForest.Proofs.Resolution.Readings

/-!
# Interleaved lanes

On a staged grid a record is placed by what is placed in its own lane, whatever stands between in other lanes. So a stream is placed
when the stream of each of its lanes is, and each lane gets the cells that its own stream gets, but for the names of the symbols, which
count the records.
-/

namespace TokenForest

namespace Grid

variable {grammar : Grammar} {placed placed' : List (Position × Symbol)} {number number' : Nat} {r : TokenRecord} {lane : Option Int}

/-! ## One record -/

/-- The positions of the cells of a lane. -/
def lanePlaces (placed : List (Position × Symbol)) (lane : Option Int) : List Position :=
  (placed.map (·.1)).filter (inLane lane)

theorem currentRow_eq (placed : List (Position × Symbol)) (lane : Option Int) :
    currentRow placed lane = ((lanePlaces placed lane).head?.map (·.row)).getD 0 := by
  unfold currentRow lanePlaces
  rw [List.head?_filter, List.find?_map, Option.map_map]
  rfl

theorem nextColumn_eq (placed : List (Position × Symbol)) (lane : Option Int) (row : Int) : nextColumn placed lane row =
    ((lanePlaces placed lane).filter (fun p => decide ((p.row : Int) = row))).foldl (fun n p => max n (p.column + 1)) 0 := by
  unfold nextColumn lanePlaces
  rw [List.filter_filter, List.filter_map, List.foldl_map]
  congr 2
  funext c
  exact Bool.and_comm _ _

theorem any_eq {p : Position} (hp : inLane lane p = true) :
    placed.any (fun c => decide (c.1 = p)) = (lanePlaces placed lane).contains p := by
  rw [Bool.eq_iff_iff]
  simp only [lanePlaces, List.any_eq_true, decide_eq_true_eq, List.contains_iff_mem, List.mem_filter, List.mem_map, hp, and_true]

variable (grammar) in
/-- The number of a record shows in the name of its symbol only. -/
theorem symbolOf_nameless (number number' : Nat) (p : Position) (r : TokenRecord) :
    (symbolOf grammar number p r).map Symbol.nameless = (symbolOf grammar number' p r).map Symbol.nameless := by
  have hname := symbolName_ne number p
  have hname' := symbolName_ne number' p
  unfold symbolOf
  generalize symbolName number p = name at hname ⊢
  generalize symbolName number' p = name' at hname' ⊢
  split
  · rfl
  · split
    · rfl
    · rename_i hint _
      let named (id : String) : Symbol := ⟨id, r.symbolClass, r.lexeme, r.typeTag, hint, r.score, r.stage, r.process, r.phase⟩
      have hfault : (named name).fault? = (named name').fault? := Symbol.fault?_congr hname hname' rfl rfl rfl rfl
      change ((named name).check.mapError Fault.badSymbol).map _ = ((named name').check.mapError Fault.badSymbol).map _
      unfold Symbol.check
      rw [hfault]
      split <;> rfl

/-- A record is placed by what is placed in its own lane. -/
theorem place_nameless (h : lanePlaces placed r.process = lanePlaces placed' r.process) :
    (place true grammar placed number r).toOption.map (eraseCell Symbol.nameless) =
      (place true grammar placed' number' r).toOption.map (eraseCell Symbol.nameless) := by
  unfold place
  simp only [if_true, currentRow_eq, nextColumn_eq, h]
  split
  · rw [toOption_error_bind, toOption_error_bind]
  · refine toOption_bind_congr (by rw [toOption_mapError, toOption_mapError]) fun p hp => ?_
    have hlane : inLane r.process p = true := by
      unfold inLane
      simpa using (make?_eq_ok (ok_of_mapError hp)).2.2
    rw [any_eq hlane, any_eq hlane, h]
    split
    · rw [toOption_error_bind, toOption_error_bind]
    · have hsymbol := symbolOf_nameless grammar number number' p r
      cases hs : symbolOf grammar number p r <;> cases hs' : symbolOf grammar number' p r <;> rw [hs, hs'] at hsymbol
      · rfl
      · cases hsymbol
      · cases hsymbol
      · exact congrArg (fun s => some (p, s)) (Except.ok.inj hsymbol)

/-! ## Streams -/

/-- The cell of a record but for the name of its symbol, if it gets one. -/
def place? (grammar : Grammar) (placed : List (Position × Symbol)) (r : TokenRecord) : Option (Position × Symbol) :=
  (place true grammar placed 1 r).toOption.map (eraseCell Symbol.nameless)

/-- The cells of a stream but for the names of their symbols, if every record gets one. -/
def placeAll? (grammar : Grammar) : List (Position × Symbol) → List TokenRecord → Option (List (Position × Symbol))
  | placed, [] => some placed
  | placed, r :: rest => (place? grammar placed r).bind fun cell => placeAll? grammar (cell :: placed) rest

theorem lanePlaces_map (f : Symbol → Symbol) (placed : List (Position × Symbol)) (lane : Option Int) :
    lanePlaces (placed.map (eraseCell f)) lane = lanePlaces placed lane := by
  unfold lanePlaces
  rw [List.map_map]
  rfl

variable (grammar) in
/-- Placing a stream and forgetting the names is placing it without names. -/
theorem placeAll_nameless (placed : List (Position × Symbol)) (number : Nat) (records : List TokenRecord) :
    (placeAll true grammar placed number records).toOption.map (List.map (eraseCell Symbol.nameless)) =
      placeAll? grammar (placed.map (eraseCell Symbol.nameless)) records := by
  induction records generalizing placed number with
  | nil => rfl
  | cons r records ih =>
    have hplace : (place true grammar placed number r).toOption.map (eraseCell Symbol.nameless) =
        place? grammar (placed.map (eraseCell Symbol.nameless)) r := place_nameless (lanePlaces_map _ placed r.process).symm
    rw [placeAll, placeAll?, ← hplace]
    cases place true grammar placed number r with
    | error fault => rfl
    | ok cell => exact ih (cell :: placed) (number + 1)

/-- The cells of a lane. -/
def laneCells (lane : Option Int) (cells : List (Position × Symbol)) : List (Position × Symbol) :=
  cells.filter (fun c => inLane lane c.1)

variable (grammar) in
/-- The cell of a record lies in the lane of the record and depends on the cells there only. -/
theorem place?_lane (placed : List (Position × Symbol)) (r : TokenRecord) :
    place? grammar (laneCells r.process placed) r = place? grammar placed r ∧
      ∀ cell, place? grammar placed r = some cell → inLane r.process cell.1 = true := by
  constructor
  · apply place_nameless
    unfold lanePlaces laneCells
    rw [List.filter_map, List.filter_map, List.filter_filter]
    congr 2
    funext c
    exact Bool.and_self _
  · intro cell hcell
    obtain ⟨named, hnamed, rfl⟩ := Option.map_eq_some_iff.1 hcell
    have hplace : place true grammar placed 1 r = .ok named := by
      cases hplace : place true grammar placed 1 r with
      | error fault =>
        rw [hplace] at hnamed
        cases hnamed
      | ok cell =>
        rw [hplace] at hnamed
        cases hnamed
        rfl
    exact decide_eq_true (place_eq_ok hplace).1.lane

theorem laneCells_cons_of_ne {cell : Position × Symbol} {other : Option Int} (hcell : inLane lane cell.1 = true) (h : lane ≠ other)
    (placed : List (Position × Symbol)) : laneCells other (cell :: placed) = laneCells other placed := by
  unfold laneCells
  rw [List.filter_cons_of_neg]
  unfold inLane at hcell ⊢
  simp only [decide_eq_true_eq] at hcell ⊢
  rw [hcell]
  exact h

/-- The stream of a lane gets the cells that the lane gets in the whole stream. -/
theorem placeAll?_lane {placed out : List (Position × Symbol)} {records : List TokenRecord}
    (h : placeAll? grammar placed records = some out) (lane : Option Int) :
    placeAll? grammar (laneCells lane placed) (laneRecords lane records) = some (laneCells lane out) := by
  induction records generalizing placed with
  | nil =>
    cases h
    rfl
  | cons r records ih =>
    obtain ⟨cell, hcell, h⟩ := Option.bind_eq_some_iff.1 h
    have hrest := ih h
    obtain ⟨hsame, hin⟩ := place?_lane grammar placed r
    by_cases hlane : r.process = lane
    · subst hlane
      have hrecords : laneRecords r.process (r :: records) = r :: laneRecords r.process records := by simp [laneRecords]
      have hcells : laneCells r.process (cell :: placed) = cell :: laneCells r.process placed := by
        simp [laneCells, hin cell hcell]
      rw [hrecords, placeAll?, hsame, hcell, Option.bind_some, ← hcells]
      exact hrest
    · have hrecords : laneRecords lane (r :: records) = laneRecords lane records := by simp [laneRecords, hlane]
      rw [hrecords]
      rw [laneCells_cons_of_ne (hin cell hcell) hlane] at hrest
      exact hrest

/-- A stream is placed when the stream of each of its lanes is. -/
theorem exists_placeAll? {placed : List (Position × Symbol)} {records : List TokenRecord}
    (h : ∀ lane, ∃ out, placeAll? grammar (laneCells lane placed) (laneRecords lane records) = some out) :
    ∃ out, placeAll? grammar placed records = some out := by
  induction records generalizing placed with
  | nil => exact ⟨placed, rfl⟩
  | cons r records ih =>
    obtain ⟨hsame, hin⟩ := place?_lane grammar placed r
    have hrecords : laneRecords r.process (r :: records) = r :: laneRecords r.process records := by simp [laneRecords]
    obtain ⟨out, hout⟩ := h r.process
    rw [hrecords, placeAll?, hsame] at hout
    obtain ⟨cell, hcell, hout⟩ := Option.bind_eq_some_iff.1 hout
    rw [placeAll?, hcell, Option.bind_some]
    apply ih
    intro lane
    by_cases hlane : r.process = lane
    · subst hlane
      have hcells : laneCells r.process (cell :: placed) = cell :: laneCells r.process placed := by
        simp [laneCells, hin cell hcell]
      rw [hcells]
      exact ⟨out, hout⟩
    · rw [laneCells_cons_of_ne (hin cell hcell) hlane]
      have hother : laneRecords lane (r :: records) = laneRecords lane records := by simp [laneRecords, hlane]
      rw [← hother]
      exact h lane

/-! ## Grids -/

/-- Neighbours on different lanes may change places. -/
theorem sameLanes_swap {r r' : TokenRecord} (h : r.process ≠ r'.process) (before after : List TokenRecord) :
    SameLanes (before ++ r :: r' :: after) (before ++ r' :: r :: after) := by
  intro lane
  unfold laneRecords
  rw [List.filter_append, List.filter_append]
  congr 1
  by_cases hr : r.process = lane
  · have hr' : r'.process ≠ lane := fun h' => h (hr.trans h'.symm)
    simp [hr, hr']
  · simp [List.filter_cons, hr]

/-- Lists of cells that agree on every lane hold the same cells. -/
theorem perm_of_laneCells {cells cells' : List (Position × Symbol)} (h : ∀ lane, laneCells lane cells = laneCells lane cells') :
    cells.Perm cells' := by
  rw [List.perm_iff_count]
  intro cell
  have hin : inLane (cell.1.lane.map Int.ofNat) cell.1 = true := by simp [inLane]
  have hcount : ∀ cells : List (Position × Symbol), (laneCells (cell.1.lane.map Int.ofNat) cells).count cell = cells.count cell :=
    fun cells => List.count_filter hin
  rw [← hcount cells, ← hcount cells', h]

theorem staged_of_organize {records : List TokenRecord} {staged : Bool} {grid : Grid} (h : organize records staged grammar = .ok grid) :
    grid.staged = staged := by
  obtain ⟨placed, _, h⟩ := ok_of_bind h
  cases h
  rfl

theorem placeAll?_of_organize {records : List TokenRecord} {grid : Grid} (h : organize records true grammar = .ok grid) :
    ∃ out, placeAll? grammar [] records = some out ∧ (grid.erase Symbol.nameless).cells = sortCells out := by
  obtain ⟨placed, hplaced, h⟩ := ok_of_bind h
  cases h
  have hall := placeAll_nameless grammar [] 1 records
  rw [hplaced] at hall
  refine ⟨placed.map (eraseCell Symbol.nameless), hall.symm, ?_⟩
  exact List.map_mergeSort fun _ _ _ _ => rfl

theorem exists_organize_of_placeAll? {records : List TokenRecord} {out : List (Position × Symbol)}
    (h : placeAll? grammar [] records = some out) : ∃ grid, organize records true grammar = .ok grid := by
  have hall := (placeAll_nameless grammar [] 1 records).trans h
  obtain ⟨placed, hplaced, _⟩ := Option.map_eq_some_iff.1 hall
  cases hplace : placeAll true grammar [] 1 records with
  | error fault =>
    rw [hplace] at hplaced
    cases hplaced
  | ok placed =>
    unfold organize
    rw [hplace]
    exact ⟨_, rfl⟩

/-- A stream that agrees on every lane with one that has a staged grid has one, too. -/
theorem SameLanes.exists_organize {records records' : List TokenRecord} (h : SameLanes records records')
    (hgrid : ∃ grid, organize records true grammar = .ok grid) : ∃ grid, organize records' true grammar = .ok grid := by
  obtain ⟨grid, hgrid⟩ := hgrid
  obtain ⟨out, hout, _⟩ := placeAll?_of_organize hgrid
  have hlanes : ∀ lane, ∃ out, placeAll? grammar (laneCells lane []) (laneRecords lane records') = some out := by
    intro lane
    rw [← h lane]
    exact ⟨_, placeAll?_lane hout lane⟩
  obtain ⟨out', hout'⟩ := exists_placeAll? hlanes
  exact exists_organize_of_placeAll? hout'

/-- Staged grids of streams that agree on every lane are the same but for the names of the symbols. -/
theorem SameLanes.nameless_eq {records records' : List TokenRecord} {grid grid' : Grid} (h : SameLanes records records')
    (hgrid : organize records true grammar = .ok grid) (hgrid' : organize records' true grammar = .ok grid') :
    grid.erase Symbol.nameless = grid'.erase Symbol.nameless := by
  obtain ⟨out, hout, hcells⟩ := placeAll?_of_organize hgrid
  obtain ⟨out', hout', hcells'⟩ := placeAll?_of_organize hgrid'
  have hsame : ∀ lane, laneCells lane out = laneCells lane out' := by
    intro lane
    have hlane := placeAll?_lane hout lane
    rw [h lane] at hlane
    exact Option.some.inj (hlane.symm.trans (placeAll?_lane hout' lane))
  have hnodup : ((sortCells out').map (·.1)).Nodup := by
    rw [← hcells']
    have hpositions : (grid'.erase Symbol.nameless).cells.map (·.1) = grid'.positions := positions_erase _ grid'
    rw [hpositions]
    exact nodup_positions hgrid'
  have hsorted : sortCells out = sortCells out' := by
    apply Position.mergeSort_eq_of_perm ((perm_of_laneCells hsame).trans (List.mergeSort_perm _ _).symm)
    · apply List.pairwise_mergeSort
      · exact fun a b c => Position.le_trans a.1 b.1 c.1
      · exact fun a b => Position.le_total a.1 b.1
    · exact hnodup
  have hstaged : (grid.erase Symbol.nameless).staged = (grid'.erase Symbol.nameless).staged :=
    (staged_of_organize hgrid).trans (staged_of_organize hgrid').symm
  exact congrArg₂ Grid.mk hstaged (hcells.trans (hsorted.trans hcells'.symm))

end Grid

end TokenForest
