import TokenForest.Proofs.Binary64.Order
import TokenForest.Proofs.Grid.Spots

/-!
# Placing well-placed streams

A record is placed at its spot exactly when the spot is not refused behind those of the records before it, as long as the position can
be written. So a stream has a grid when it is well-placed, and otherwise the first record that is refused is reported.
-/

namespace TokenForest

namespace Grid

variable {staged : Bool} {grammar : Grammar} {placed : List (Position × Symbol)} {number : Nat} {r : TokenRecord}
  {records : List TokenRecord} {fault : Fault} {p : Position} {s : Spot}

/-! ## Spots of cells -/

namespace Spot

theorem ofPosition_injective {p q : Position} (h : ofPosition p = ofPosition q) : p = q := by
  obtain ⟨row, column, lane⟩ := p
  obtain ⟨row', column', lane'⟩ := q
  simp only [ofPosition, Spot.mk.injEq, Int.natCast_inj] at h
  obtain ⟨hlane, rfl, rfl⟩ := h
  have hlane' : lane = lane' := Option.map_injective (fun _ _ => Int.ofNat.inj) hlane
  rw [hlane']

theorem lastRow_ofCells (placed : List (Position × Symbol)) (lane : Option Int) :
    lastRow (ofCells placed) lane = (currentRow placed lane : Int) := by
  unfold lastRow ofCells currentRow
  rw [List.find?_map, Option.map_map]
  change ((placed.find? (fun c => inLane lane c.1)).map (fun c => (c.1.row : Int))).getD 0 = _
  cases placed.find? (fun c => inLane lane c.1) <;> rfl

theorem max?_natCast (ns : List Nat) :
    (ns.map (fun n : Nat => (n : Int))).max?.elim 0 (· + 1) = ((ns.foldl (fun n c => max n (c + 1)) 0 : Nat) : Int) := by
  cases ns with
  | nil => rfl
  | cons n ns =>
    have hfold : ∀ m : Nat, (ns.map (fun n : Nat => (n : Int))).foldl max (m : Int) + 1 =
        ((ns.foldl (fun n c => max n (c + 1)) (m + 1) : Nat) : Int) := by
      induction ns with
      | nil => intro m; rfl
      | cons k ns ih =>
        intro m
        have hmax : max (m : Int) k = (max m k : Nat) := by omega
        rw [List.map_cons, List.foldl_cons, List.foldl_cons, hmax, ih, Nat.add_max_add_right]
    rw [List.map_cons, List.max?_cons', Option.elim_some, hfold, List.foldl_cons, Nat.zero_max]

theorem freeColumn_ofCells (placed : List (Position × Symbol)) (lane : Option Int) (row : Int) :
    freeColumn (ofCells placed) lane row = (nextColumn placed lane row : Int) := by
  unfold freeColumn usedColumns ofCells nextColumn
  rw [List.filter_map, List.map_map]
  generalize hkept : placed.filter (fun c => inLane lane c.1 && decide ((c.1.row : Int) = row)) = kept
  have hfilter : placed.filter ((fun s => decide (s.lane = lane ∧ s.row = row)) ∘ fun c => ofPosition c.1) = kept := by
    rw [← hkept]
    exact List.filter_congr fun c _ => Bool.decide_and _ _
  rw [hfilter, ← List.foldl_map (f := fun c : Position × Symbol => c.1.column) (g := fun n c => max n (c + 1)), ← max?_natCast,
    List.map_map]
  rfl

end Spot

/-! ## One record -/

/-- The spot of a record behind the cells placed. -/
def spotBehind (staged : Bool) (placed : List (Position × Symbol)) (r : TokenRecord) : Spot :=
  Spot.ofRecord staged (Spot.ofCells placed) r

theorem make?_spot (hrow : 0 ≤ s.row) (hcolumn : 0 ≤ s.column) (hlane : ∀ l ∈ s.lane, 0 ≤ l) :
    ∃ p, Position.make? s.row s.column s.lane = .ok p ∧ Spot.ofPosition p = s := by
  obtain ⟨lane, row, column⟩ := s
  obtain ⟨n, rfl⟩ := Int.eq_ofNat_of_zero_le hrow
  obtain ⟨m, rfl⟩ := Int.eq_ofNat_of_zero_le hcolumn
  cases lane with
  | none => exact ⟨⟨n, m, none⟩, rfl, rfl⟩
  | some l =>
    obtain ⟨k, rfl⟩ := Int.eq_ofNat_of_zero_le (hlane l rfl)
    exact ⟨⟨n, m, some k⟩, rfl, rfl⟩

theorem ofPosition_of_make? (h : Position.make? s.row s.column s.lane = .ok p) : Spot.ofPosition p = s := by
  obtain ⟨hrow, hcolumn, hlane⟩ := make?_eq_ok h
  rw [Spot.ofPosition, hrow, hcolumn, hlane]

/-- A negative column or lane has no position. -/
theorem make?_negative (h : s.column < 0 ∨ ∃ l ∈ s.lane, l < 0) : ∃ e, Position.make? s.row s.column s.lane = .error e := by
  cases hp : Position.make? s.row s.column s.lane with
  | error e => exact ⟨e, rfl⟩
  | ok p =>
    rw [← ofPosition_of_make? hp] at h
    rcases h with h | ⟨l, hl, h⟩
    · exact absurd h (Int.not_lt.2 (Int.natCast_nonneg _))
    · obtain ⟨k, _, rfl⟩ := Option.map_eq_some_iff.1 hl
      exact absurd h (Int.not_lt.2 (Int.natCast_nonneg _))

theorem placeOf?_eq (staged : Bool) (placed : List (Position × Symbol)) (r : TokenRecord) : placeOf? staged placed r =
    Position.make? (spotBehind staged placed r).row (spotBehind staged placed r).column (spotBehind staged placed r).lane := by
  unfold placeOf? spotBehind Spot.ofRecord
  simp only [Spot.lastRow_ofCells, Spot.freeColumn_ofCells]

theorem any_eq_true_iff : placed.any (fun c => decide (c.1 = p)) = true ↔ Spot.ofPosition p ∈ Spot.ofCells placed := by
  simp only [List.any_eq_true, decide_eq_true_eq, Spot.ofCells, List.mem_map]
  constructor
  · rintro ⟨c, hc, rfl⟩
    exact ⟨c, hc, rfl⟩
  · rintro ⟨c, hc, h⟩
    exact ⟨c, hc, Spot.ofPosition_injective h⟩

theorem isWritable_iff {n : Nat} : isWritable n = true ↔ n < tooLong := by
  unfold isWritable tooLong
  exact decide_eq_true_iff

/-- A position has a label when its coordinates are short enough. -/
theorem hasLabel_iff_short : hasLabel p = true ↔ (Spot.ofPosition p).Short := by
  constructor
  · intro h
    unfold hasLabel at h
    rw [Bool.and_eq_true, Bool.and_eq_true, isWritable_iff, isWritable_iff] at h
    obtain ⟨⟨hrow, hcolumn⟩, hlane⟩ := h
    refine ⟨Int.ofNat_lt.2 hrow, Int.ofNat_lt.2 hcolumn, fun l hl => ?_⟩
    obtain ⟨k, hk, rfl⟩ := Option.map_eq_some_iff.1 hl
    rw [hk, Option.all_some] at hlane
    exact Int.ofNat_lt.2 (isWritable_iff.1 hlane)
  · rintro ⟨hrow, hcolumn, hlane⟩
    refine hasLabel_eq_true (Int.ofNat_lt.1 hrow) (Int.ofNat_lt.1 hcolumn) fun l hl => ?_
    exact Int.ofNat_lt.1 (hlane l (Option.map_eq_some_iff.2 ⟨l, hl, rfl⟩))

/-- A record is placed by its spot: the row against the last one of its lane, the position, the spots before it, and the symbol. -/
theorem place_spot (staged : Bool) (grammar : Grammar) (placed : List (Position × Symbol)) (number : Nat) (r : TokenRecord) :
    place staged grammar placed number r =
      let s := spotBehind staged placed r
      if s.row < Spot.lastRow (Spot.ofCells placed) s.lane then
        .error (.rowBack number s.lane (currentRow placed s.lane) s.row)
      else (Position.make? s.row s.column s.lane).mapError (.badPosition number) >>= fun p =>
        if Spot.ofPosition p ∈ Spot.ofCells placed then .error (.duplicate number r.lexeme p)
        else (symbolOf grammar number p r).map (p, ·) := by
  rw [place_eq, placeOf?_eq]
  simp only [any_eq_true_iff]
  unfold spotBehind Spot.ofRecord
  simp only [Spot.lastRow_ofCells]

/-- A record whose spot is refused is reported under its number, with the reason of the refusal. -/
theorem place_of_refused {reason : String} (grammar : Grammar) (number : Nat)
    (h : Spot.refusal? (Spot.ofCells placed) (spotBehind staged placed r) = some reason) :
    ∃ fault, place staged grammar placed number r = .error fault ∧ fault.reason? = some reason ∧ fault.record? = some number := by
  rw [place_spot]
  generalize spotBehind staged placed r = s at h
  unfold Spot.refusal? at h
  simp only
  split at h
  · rename_i hrow
    cases h
    rw [if_pos hrow]
    exact ⟨_, rfl, rfl, rfl⟩
  · rename_i hrow
    rw [if_neg hrow]
    split at h
    · rename_i hneg
      cases h
      obtain ⟨e, he⟩ := make?_negative hneg
      rw [he]
      exact ⟨_, rfl, rfl, rfl⟩
    · split at h
      · rename_i hneg hmem
        cases h
        rw [not_or] at hneg
        have hzero : 0 ≤ s.row := by
          rw [Spot.lastRow_ofCells] at hrow
          omega
        obtain ⟨p, hp, rfl⟩ := make?_spot hzero (Int.not_lt.1 hneg.1) fun l hl => Int.not_lt.1 fun hl' => hneg.2 ⟨l, hl, hl'⟩
        rw [hp, mapError_ok, ok_bind, if_pos hmem]
        exact ⟨_, rfl, rfl, rfl⟩
      · cases h

/-- A record whose spot is not refused is placed there, or its position is too long to be written. -/
theorem place_of_free (hr : r.fault? = none) (hknown : ∀ e ∈ grammar.readings, e.hint.isKnown = true) (number : Nat)
    (h : Spot.refusal? (Spot.ofCells placed) (spotBehind staged placed r) = none) :
    ((spotBehind staged placed r).Short ∧ ∃ cell, place staged grammar placed number r = .ok cell ∧
      Spot.ofPosition cell.1 = spotBehind staged placed r ∧ Carries r cell.2) ∨
    ¬(spotBehind staged placed r).Short ∧ place staged grammar placed number r = .error .longPosition := by
  rw [place_spot]
  generalize spotBehind staged placed r = s at h
  rw [Spot.refusal?_eq_none_iff] at h
  obtain ⟨hrow, hcolumn, hlane, hfree⟩ := h
  have hzero : 0 ≤ s.row := by
    rw [Spot.lastRow_ofCells] at hrow
    omega
  obtain ⟨p, hp, rfl⟩ := make?_spot hzero hcolumn hlane
  simp only
  rw [if_neg (Int.not_lt.2 hrow), hp, mapError_ok, ok_bind, if_neg hfree]
  cases hsymbol : symbolOf grammar number p r with
  | error fault =>
    obtain ⟨rfl, hlabel⟩ := symbolOf_eq_error hr hknown hsymbol
    refine Or.inr ⟨fun hshort => ?_, rfl⟩
    rw [hasLabel_iff_short.2 hshort] at hlabel
    cases hlabel
  | ok symbol =>
    obtain ⟨hlabel, _, hint, _, rfl⟩ := symbolOf_eq_ok_iff.1 hsymbol
    exact Or.inl ⟨hasLabel_iff_short.1 hlabel, _, rfl, rfl, ⟨rfl, rfl, rfl, rfl, rfl, rfl, rfl⟩⟩

/-! ## Streams -/

/-- The records are placed at their spots behind others: each cell stands where its record belongs and says what its record says. -/
structure Filled (staged : Bool) (before : List Spot) (records : List TokenRecord) (cells : List (Position × Symbol)) : Prop where
  spots : Spot.ofCells cells = Spot.spotsFrom staged before records
  carries : List.Forall₂ (fun r cell => Carries r cell.2) records cells
  wellPlaced : Spot.WellPlaced (before.reverse ++ Spot.spotsFrom staged before records)
  short : ∀ s ∈ Spot.spotsFrom staged before records, s.Short

/-- The records come to a stop at one that is refused behind those before it, or too long to be written. -/
structure StopsAt (staged : Bool) (before : List Spot) (number : Nat) (r : TokenRecord) (fault : Fault) : Prop where
  wellPlaced : Spot.WellPlaced before.reverse
  short : ∀ s ∈ before, s.Short
  stop : (∃ reason, Spot.refusal? before (Spot.ofRecord staged before r) = some reason ∧ fault.reason? = some reason ∧
      fault.record? = some number) ∨
    Spot.refusal? before (Spot.ofRecord staged before r) = none ∧ ¬(Spot.ofRecord staged before r).Short ∧ fault = .longPosition

/-- The first record at which a stream stops behind others. -/
def Stops (staged : Bool) (before : List Spot) (number : Nat) (records : List TokenRecord) (fault : Fault) : Prop :=
  ∃ front r rest, records = front ++ r :: rest ∧
    StopsAt staged ((Spot.spotsFrom staged before front).reverse ++ before) (number + front.length) r fault

/-- Records are placed at their spots, or the first one that cannot be placed is reported. -/
theorem placeAll_spots (hrecords : ∀ r ∈ records, r.fault? = none) (hknown : ∀ e ∈ grammar.readings, e.hint.isKnown = true)
    (hplaced : Spot.WellPlaced (Spot.ofCells placed).reverse) (hshort : ∀ s ∈ Spot.ofCells placed, s.Short) (number : Nat) :
    (∃ cells, placeAll staged grammar placed number records = .ok (cells.reverse ++ placed) ∧
      Filled staged (Spot.ofCells placed) records cells) ∨
    ∃ fault, placeAll staged grammar placed number records = .error fault ∧
      Stops staged (Spot.ofCells placed) number records fault := by
  induction records generalizing placed number with
  | nil => exact Or.inl ⟨[], rfl, rfl, .nil, by simpa [Spot.spotsFrom] using hplaced, by simp [Spot.spotsFrom]⟩
  | cons r records ih =>
    have hr := hrecords r (by simp)
    cases hrefusal : Spot.refusal? (Spot.ofCells placed) (spotBehind staged placed r) with
    | some reason =>
      obtain ⟨fault, hplace, hreason, hrecord⟩ := place_of_refused grammar number hrefusal
      refine Or.inr ⟨fault, ?_, [], r, records, rfl, hplaced, hshort, Or.inl ⟨reason, hrefusal, hreason, hrecord⟩⟩
      rw [placeAll, hplace]
      rfl
    | none =>
      rcases place_of_free hr hknown number hrefusal with ⟨hs, cell, hplace, hspot, hcarries⟩ | ⟨hs, hplace⟩
      · have hcells : Spot.ofCells (cell :: placed) = spotBehind staged placed r :: Spot.ofCells placed := by
          rw [← hspot]
          rfl
        have hnext : Spot.WellPlaced (Spot.ofCells (cell :: placed)).reverse := by
          rw [hcells, List.reverse_cons, Spot.wellPlaced_concat, List.reverse_reverse]
          exact ⟨hplaced, hrefusal⟩
        have hnext' : ∀ s ∈ Spot.ofCells (cell :: placed), s.Short := by
          rw [hcells]
          exact List.forall_mem_cons.2 ⟨hs, hshort⟩
        have hall : placeAll staged grammar placed number (r :: records) =
            placeAll staged grammar (cell :: placed) (number + 1) records := by
          rw [placeAll, hplace, ok_bind]
        rw [hall]
        rcases ih (fun x hx => hrecords x (by simp [hx])) hnext hnext' (number + 1) with
          ⟨cells, hok, hfilled⟩ | ⟨fault, herror, front, x, rest, rfl, hstop⟩
        · refine Or.inl ⟨cell :: cells, by rw [hok]; simp, ?_, .cons hcarries hfilled.carries, ?_, ?_⟩
          · change Spot.ofPosition cell.1 :: Spot.ofCells cells = _
            rw [hfilled.spots, hspot, hcells]
            rfl
          · have hwell := hfilled.wellPlaced
            rw [hcells, List.reverse_cons, List.append_assoc] at hwell
            exact hwell
          · have hrest := hfilled.short
            rw [hcells] at hrest
            exact List.forall_mem_cons.2 ⟨hs, hrest⟩
        · have hearlier : (Spot.spotsFrom staged (Spot.ofCells placed) (r :: front)).reverse ++ Spot.ofCells placed =
              (Spot.spotsFrom staged (Spot.ofCells (cell :: placed)) front).reverse ++ Spot.ofCells (cell :: placed) := by
            rw [hcells, Spot.spotsFrom, List.reverse_cons, List.append_assoc]
            rfl
          refine Or.inr ⟨fault, herror, r :: front, x, rest, rfl, ?_⟩
          rw [hearlier, List.length_cons, Nat.add_comm front.length, ← Nat.add_assoc]
          exact hstop
      · refine Or.inr ⟨.longPosition, ?_, [], r, records, rfl, hplaced, hshort, Or.inr ⟨hrefusal, hs, rfl⟩⟩
        rw [placeAll, hplace]
        rfl

/-- A stream has a grid with its records at their spots, or stops at a record. -/
theorem organize_spots (hrecords : ∀ r ∈ records, r.fault? = none) (hknown : ∀ e ∈ grammar.readings, e.hint.isKnown = true)
    (staged : Bool) :
    (∃ grid cells, organize records staged grammar = .ok grid ∧ grid.staged = staged ∧ cells.Perm grid.cells ∧
      Filled staged [] records cells) ∨
    ∃ fault, organize records staged grammar = .error fault ∧ Stops staged [] 1 records fault := by
  have hplaced : Spot.WellPlaced (Spot.ofCells []).reverse := Spot.wellPlaced_nil
  have hstep := @placeAll_spots staged grammar [] records hrecords hknown hplaced (by simp [Spot.ofCells]) 1
  rcases hstep with ⟨cells, hok, hfilled⟩ | ⟨fault, herror, hstops⟩
  · refine Or.inl ⟨⟨staged, sortCells (cells.reverse ++ [])⟩, cells, ?_, rfl, ?_, hfilled⟩
    · rw [organize, hok]
      rfl
    · rw [List.append_nil]
      exact (List.reverse_perm cells).symm.trans (List.mergeSort_perm _ _).symm
  · refine Or.inr ⟨fault, ?_, hstops⟩
    rw [organize, herror]
    rfl

/-- A well-placed stream stops only where a position is too long to be written. -/
theorem Stops.of_wellPlaced (h : Stops staged [] 1 records fault) (hwell : Spot.WellPlaced (Spot.spots staged records)) :
    fault = .longPosition ∧ ∃ s ∈ Spot.spots staged records, ¬s.Short := by
  obtain ⟨front, r, rest, rfl, hstop⟩ := h
  rw [List.append_nil] at hstop
  have hprefix : Spot.spots staged (front ++ [r]) <+: Spot.spots staged (front ++ r :: rest) := by
    have := Spot.spots_prefix staged (front ++ [r]) rest
    rwa [List.append_assoc] at this
  have hnext := hwell.sublist hprefix.sublist
  rw [Spot.spots_concat] at hprefix hnext
  rcases hstop.stop with ⟨reason, hrefused, _⟩ | ⟨_, hlong, rfl⟩
  · exact absurd ((Spot.wellPlaced_concat.1 hnext).2.symm.trans hrefused) nofun
  · exact ⟨rfl, _, hprefix.subset (List.mem_append_right _ (List.mem_singleton_self _)), hlong⟩

/-! ## Coordinates that are inferred -/

theorem tooLong_pos : 0 < tooLong := by
  have hpow : ∀ n, 0 < Nat.pow 10 n := fun n => Nat.pow_pos (by omega)
  unfold tooLong
  exact hpow _

namespace Spot

variable {before : List Spot} {bound : Int}

theorem lastRow_lt (h : ∀ s ∈ before, s.row < bound) (hbound : 0 < bound) (lane : Option Int) : lastRow before lane < bound := by
  unfold lastRow
  cases hfound : before.find? (fun s => decide (s.lane = lane)) with
  | none => exact hbound
  | some s => exact h s (List.mem_of_find?_eq_some hfound)

theorem freeColumn_le (h : ∀ s ∈ before, s.column < bound) (hbound : 0 ≤ bound) (lane : Option Int) (row : Int) :
    freeColumn before lane row ≤ bound := by
  unfold freeColumn
  cases hmax : (usedColumns before lane row).max? with
  | none => exact hbound
  | some greatest =>
    obtain ⟨s, hs, rfl⟩ := List.mem_map.1 (List.max?_mem hmax)
    exact h s (List.mem_of_mem_filter hs)

/-- Behind short spots a record that states short coordinates has a spot that is too long only by a column that is inferred, and that is
the first one that is too long. -/
theorem column_of_not_short {staged : Bool} {r : TokenRecord} (hshort : ∀ s ∈ before, s.Short)
    (hstated : ∀ x ∈ statedBy r, x.natAbs < tooLong) (hlong : ¬(ofRecord staged before r).Short) :
    r.column = none ∧ (ofRecord staged before r).column = tooLong := by
  have hpos := tooLong_pos
  have hrow : (ofRecord staged before r).row < tooLong := by
    cases hr : r.row with
    | none =>
      simp only [ofRecord, hr, Option.getD_none]
      exact lastRow_lt (fun s hs => (hshort s hs).1) (by omega) _
    | some x =>
      have hx := hstated x (by simp [statedBy, hr])
      simp only [ofRecord, hr, Option.getD_some]
      omega
  have hlane : ∀ l ∈ (ofRecord staged before r).lane, l < tooLong := by
    intro l hl
    simp only [ofRecord, laneOf] at hl
    split at hl
    · have hx := hstated l (by simp [statedBy, Option.mem_def.1 hl])
      omega
    · cases hl
  have hcolumn : ¬(ofRecord staged before r).column < tooLong := fun h => hlong ⟨hrow, h, hlane⟩
  cases hc : r.column with
  | none =>
    refine ⟨rfl, ?_⟩
    simp only [ofRecord, hc, Option.getD_none] at hcolumn ⊢
    exact Int.le_antisymm (freeColumn_le (fun s hs => (hshort s hs).2.1) (by omega) _ _) (Int.not_lt.1 hcolumn)
  | some x =>
    have hx := hstated x (by simp [statedBy, hc])
    simp only [ofRecord, hc, Option.getD_some] at hcolumn
    omega

end Spot

/-! ## Well-placed streams have a grid -/

/-- A stream of records that pass their checks has a grid exactly when it is well-placed and its coordinates can be written; the grid
then has one cell for each record, at its spot, that says what the record says. Otherwise, where the coordinates that the records state
can be written, the first record behind which the stream is not well-placed any more is reported, with the first of the three reasons
that holds, and as a duplicate only where it states its column; or an inferred column is the first one that cannot be written. -/
theorem organize_wellPlaced (hrecords : ∀ r ∈ records, r.fault? = none) (hknown : ∀ e ∈ grammar.readings, e.hint.isKnown = true)
    (staged : Bool) :
    ((∃ grid, organize records staged grammar = .ok grid) ↔
      Spot.WellPlaced (Spot.spots staged records) ∧ ∀ s ∈ Spot.spots staged records, s.Short) ∧
    (∀ grid, organize records staged grammar = .ok grid → grid.staged = staged ∧ grid.positions.Nodup ∧
      ∃ cells, cells.Perm grid.cells ∧ Spot.ofCells cells = Spot.spots staged records ∧
        List.Forall₂ (fun r cell => Carries r cell.2) records cells) ∧
    (∀ fault, organize records staged grammar = .error fault → (∀ r ∈ records, ∀ x ∈ statedBy r, x.natAbs < tooLong) →
      ∃ front r rest, records = front ++ r :: rest ∧ Spot.WellPlaced (Spot.spots staged front) ∧
        ((¬Spot.WellPlaced (Spot.spots staged (front ++ [r])) ∧ fault.record? = some (front.length + 1) ∧
            ∃ reason, Spot.refusal? (Spot.spots staged front).reverse (Spot.behind staged front r) = some reason ∧
              fault.reason? = some reason ∧ (reason = "duplicate_position" → r.column.isSome = true)) ∨
          Spot.WellPlaced (Spot.spots staged (front ++ [r])) ∧ fault = .longPosition ∧ r.column = none ∧
            (Spot.behind staged front r).column = tooLong)) := by
  rcases organize_spots hrecords hknown staged with ⟨grid, cells, hok, hstaged, hperm, hfilled⟩ | ⟨fault, herror, hstops⟩
  · refine ⟨iff_of_true ⟨grid, hok⟩ ⟨hfilled.wellPlaced, hfilled.short⟩, fun grid' hok' => ?_, fun fault herror => ?_⟩
    · cases Except.ok.inj (hok.symm.trans hok')
      exact ⟨hstaged, nodup_positions hok, cells, hperm, hfilled.spots, hfilled.carries⟩
    · rw [hok] at herror
      cases herror
  · refine ⟨iff_of_false ?_ ?_, fun grid hok => ?_, fun fault' herror' hstated => ?_⟩
    · rintro ⟨grid, hok⟩
      rw [herror] at hok
      cases hok
    · rintro ⟨hwell, hwritable⟩
      obtain ⟨_, s, hs, hlong⟩ := hstops.of_wellPlaced hwell
      exact hlong (hwritable s hs)
    · rw [herror] at hok
      cases hok
    · cases Except.error.inj (herror.symm.trans herror')
      obtain ⟨front, r, rest, rfl, hstop⟩ := hstops
      rw [List.append_nil, Nat.add_comm] at hstop
      obtain ⟨hwell, hshort, hreason⟩ := hstop
      rw [List.reverse_reverse] at hwell
      have hnext : Spot.WellPlaced (Spot.spots staged (front ++ [r])) ↔
          Spot.refusal? (Spot.spots staged front).reverse (Spot.behind staged front r) = none := by
        rw [Spot.spots_concat, Spot.wellPlaced_concat]
        exact and_iff_right hwell
      refine ⟨front, r, rest, rfl, hwell, ?_⟩
      rcases hreason with ⟨reason, hrefused, hnamed, hrecord⟩ | ⟨hfree, hlong, rfl⟩
      · refine Or.inl ⟨fun h => ?_, hrecord, reason, hrefused, hnamed, ?_⟩
        · exact absurd ((hnext.1 h).symm.trans hrefused) nofun
        · rintro rfl
          exact Spot.isSome_column_of_refusal? hrefused
      · obtain ⟨hcolumn, heq⟩ := Spot.column_of_not_short hshort (hstated r (by simp)) hlong
        exact Or.inr ⟨hnext.2 hfree, rfl, hcolumn, heq⟩

/-- Two records of one process around one of another: the first two state their rows, the last one nothing. -/
def spacedRecords : List TokenRecord := [
  ⟨.terminal, "identifier", "x", some 1, none, some 4, none, none, "", 1⟩,
  ⟨.terminal, "identifier", "y", some 0, some 2, some 7, none, none, "", 1⟩,
  ⟨.terminal, "identifier", "z", none, none, some 4, none, none, "", 1⟩]

/-- On a staged grid the three records get their cells: the last one stands behind the first one of its process. -/
theorem organize_wellPlaced_spaced : ∃ grid cells, organize spacedRecords true .default = .ok grid ∧ cells.Perm grid.cells ∧
    Spot.ofCells cells = [⟨some 4, 1, 0⟩, ⟨some 7, 0, 2⟩, ⟨some 4, 1, 1⟩] := by
  have hspots : Spot.spots true spacedRecords = [] ++ [⟨some 4, 1, 0⟩] ++ [⟨some 7, 0, 2⟩] ++ [⟨some 4, 1, 1⟩] := by decide
  have hwell : Spot.WellPlaced (Spot.spots true spacedRecords) := by
    rw [hspots, Spot.wellPlaced_concat, Spot.wellPlaced_concat, Spot.wellPlaced_concat]
    exact ⟨⟨⟨Spot.wellPlaced_nil, by decide⟩, by decide⟩, by decide⟩
  have hshort : ∀ s ∈ Spot.spots true spacedRecords, s.Short := by decide +kernel
  have hrecords : ∀ r ∈ spacedRecords, r.fault? = none := by decide +kernel
  have hknown : ∀ e ∈ Grammar.default.readings, e.hint.isKnown = true := by decide
  obtain ⟨hiff, hcells, _⟩ := organize_wellPlaced hrecords hknown true
  obtain ⟨grid, hok⟩ := hiff.2 ⟨hwell, hshort⟩
  obtain ⟨_, _, cells, hperm, hplaces, _⟩ := hcells grid hok
  exact ⟨grid, cells, hok, hperm, hplaces.trans hspots⟩

/-! ## Columns behind the last one that can be written -/

/-- Two records of one row, of which the first one states its column. -/
def rowFrom (column : Int) : List TokenRecord := [
  ⟨.terminal, "identifier", "x", none, some column, none, none, none, "", 1⟩,
  ⟨.terminal, "identifier", "y", none, none, none, none, none, "", 1⟩]

theorem spots_rowFrom (column : Int) :
    Spot.spots false (rowFrom column) = [] ++ [⟨none, 0, column⟩] ++ [⟨none, 0, column + 1⟩] := rfl

theorem wellPlaced_rowFrom {column : Int} (h : 0 ≤ column) : Spot.WellPlaced (Spot.spots false (rowFrom column)) := by
  have hnext : column + 1 ≠ column := by omega
  rw [spots_rowFrom, Spot.wellPlaced_concat, Spot.wellPlaced_concat, Spot.refusal?_eq_none_iff, Spot.refusal?_eq_none_iff]
  refine ⟨⟨Spot.wellPlaced_nil, ?_, h, nofun, nofun⟩, ?_, by simp only; omega, nofun, ?_⟩
  · exact Int.le_refl 0
  · exact Int.le_refl 0
  · simp [hnext]

theorem column_of_mem_rowFrom {column x : Int} (hr : r ∈ rowFrom column) (hx : x ∈ statedBy r) : x = column := by
  simp only [rowFrom, List.mem_cons, List.not_mem_nil, or_false] at hr
  rcases hr with rfl | rfl
  · simpa [statedBy] using hx
  · simp [statedBy] at hx

theorem column_lt_of_short {column : Int} (h : ∀ s ∈ Spot.spots false (rowFrom column), s.Short) : column + 1 < tooLong := by
  rw [spots_rowFrom] at h
  exact (h ⟨none, 0, column + 1⟩ (by simp)).2.1

/-- Behind the last column that can be written a record that states no column cannot be placed, although the stream is well-placed. -/
theorem organize_behind_last : (∀ r ∈ rowFrom (tooLong - 1), r.fault? = none) ∧
    (∀ r ∈ rowFrom (tooLong - 1), ∀ x ∈ statedBy r, x.natAbs < tooLong) ∧
    Spot.WellPlaced (Spot.spots false (rowFrom (tooLong - 1))) ∧
    organize (rowFrom (tooLong - 1)) false .default = .error .longPosition := by
  have hpos := tooLong_pos
  have hone : (1 : Binary64).inUnit = true := Binary64.inUnit_one
  have hrecords : ∀ r ∈ rowFrom (tooLong - 1), r.fault? = none := by
    intro r hr
    simp only [rowFrom, List.mem_cons, List.not_mem_nil, or_false] at hr
    rcases hr with rfl | rfl <;>
      exact TokenRecord.fault?_eq_none_iff.2 ⟨rfl, by decide, by decide, hone⟩
  have hwell : Spot.WellPlaced (Spot.spots false (rowFrom (tooLong - 1))) := wellPlaced_rowFrom (by omega)
  refine ⟨hrecords, fun r hr x hx => ?_, hwell, ?_⟩
  · have hx := column_of_mem_rowFrom hr hx
    omega
  · have hknown : ∀ e ∈ Grammar.default.readings, e.hint.isKnown = true := by decide
    rcases organize_spots hrecords hknown false with ⟨_, _, _, _, _, hfilled⟩ | ⟨fault, herror, hstops⟩
    · have hcolumn := column_lt_of_short hfilled.short
      omega
    · rw [herror, (hstops.of_wellPlaced hwell).1]

end Grid

end TokenForest
