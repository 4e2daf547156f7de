import TokenForest.Proofs.Grid.Placement
import TokenForest.Proofs.Resolution.Readings

/-!
# Streams without a grid

A record that passes its checks is refused for its place only: it goes back in its lane, it has no position, or its position is taken.
Its symbol passes all checks, as long as the position can be written.
-/

namespace TokenForest

/-- What the checks of a record ask for. -/
theorem TokenRecord.fault?_eq_none_iff {r : TokenRecord} : r.fault? = none ↔
    r.symbolClass.isKnown = true ∧ r.typeTag ≠ "" ∧ r.lexeme ≠ "" ∧ r.score.inUnit = true := by
  unfold fault?
  generalize r.score.inUnit = inRange
  cases r.symbolClass.isKnown with
  | false => simp
  | true =>
    by_cases htag : r.typeTag = ""
    · simp [htag]
    · by_cases hlexeme : r.lexeme = ""
      · simp [htag, hlexeme]
      · cases inRange <;> simp [htag, hlexeme]

namespace Grid

variable {staged : Bool} {grammar : Grammar} {placed : List (Position × Symbol)} {number : Nat} {r : TokenRecord}
  {records : List TokenRecord} {fault : Fault} {p : Position}

/-! ## Symbols -/

/-- A known class has a hint of its own, and that is on the list. -/
theorem exists_classHint? {c : SymbolClass} (h : c.isKnown = true) : ∃ hint, Grammar.classHint? c = some hint ∧ hint.isKnown = true := by
  cases c with
  | other name => cases h
  | terminal => exact ⟨_, rfl, rfl⟩
  | delimiter => exact ⟨_, rfl, rfl⟩
  | query => exact ⟨_, rfl, rfl⟩
  | closure => exact ⟨_, rfl, rfl⟩
  | processControl => exact ⟨_, rfl, rfl⟩

/-- A token of a known class has a hint on the list, where the hints of all readings are. -/
theorem exists_hintOf? (hknown : ∀ e ∈ grammar.readings, e.hint.isKnown = true) {c : SymbolClass} (hclass : c.isKnown = true)
    (typeTag rawHint : String) : ∃ hint, grammar.hintOf? c typeTag rawHint = some hint ∧ hint.isKnown = true := by
  unfold Grammar.hintOf?
  simp only
  split
  · rename_i hreported
    exact ⟨_, rfl, hreported⟩
  · cases hreading : grammar.reading? c typeTag with
    | some e => exact ⟨e.hint, rfl, hknown e (List.mem_of_find?_eq_some hreading)⟩
    | none => exact exists_classHint? hclass

/-- The symbol of a record that passes its checks is refused only where the position is too long to be written. -/
theorem symbolOf_eq_error (hr : r.fault? = none) (hknown : ∀ e ∈ grammar.readings, e.hint.isKnown = true)
    (h : symbolOf grammar number p r = .error fault) : fault = .longPosition ∧ hasLabel p = false := by
  obtain ⟨hclass, _, hlexeme, hscore⟩ := TokenRecord.fault?_eq_none_iff.1 hr
  obtain ⟨hint, hhint, hlisted⟩ := exists_hintOf? hknown hclass r.typeTag r.intentHint
  unfold symbolOf at h
  rw [hhint] at h
  cases hlabel : hasLabel p with
  | false =>
    rw [hlabel] at h
    cases h
    exact ⟨rfl, rfl⟩
  | true =>
    rw [hlabel] at h
    have hpasses : (⟨symbolName number p, r.symbolClass, r.lexeme, r.typeTag, hint, r.score, r.stage, r.process, r.phase⟩ :
        Symbol).fault? = none := Symbol.fault?_eq_none_iff.2 ⟨symbolName_ne number p, hclass, hlisted, hlexeme, hscore⟩
    simp only [Bool.not_true, Bool.false_eq_true, if_false, Symbol.check, hpasses] at h
    cases h

/-! ## Places -/

/-- A record is placed at the row that it states, or in the current row of its lane, and likewise with its column. -/
def placeOf? (staged : Bool) (placed : List (Position × Symbol)) (r : TokenRecord) : Except Position.Fault Position :=
  let row : Int := r.row.getD (currentRow placed (laneOf staged r))
  Position.make? row (r.column.getD (nextColumn placed (laneOf staged r) row)) (laneOf staged r)

/-- A record is placed in the order of its checks: its row, its position, the cell there, and then its symbol. -/
theorem place_eq (staged : Bool) (grammar : Grammar) (placed : List (Position × Symbol)) (number : Nat) (r : TokenRecord) :
    place staged grammar placed number r =
      if r.row.getD (currentRow placed (laneOf staged r)) < currentRow placed (laneOf staged r) then
        .error (.rowBack number (laneOf staged r) (currentRow placed (laneOf staged r))
          (r.row.getD (currentRow placed (laneOf staged r))))
      else (placeOf? staged placed r).mapError (.badPosition number) >>= fun p =>
        if placed.any (fun c => decide (c.1 = p)) then .error (.duplicate number r.lexeme p)
        else (symbolOf grammar number p r).map (p, ·) := by
  rw [place, placeOf?, laneOf]
  generalize (if staged then r.process else none) = lane
  simp only
  split
  · rfl
  · refine bind_congr fun p => ?_
    split
    · rfl
    · cases symbolOf grammar number p r <;> rfl

/-- A record is refused for its place, or because its symbol is refused there. -/
theorem place_eq_error (h : place staged grammar placed number r = .error fault) :
    fault.reason?.isSome = true ∨ ∃ p, placeOf? staged placed r = .ok p ∧ symbolOf grammar number p r = .error fault := by
  rw [place_eq] at h
  split at h
  · cases h
    exact Or.inl rfl
  · cases hplace : placeOf? staged placed r with
    | error e =>
      rw [hplace] at h
      cases h
      exact Or.inl rfl
    | ok p =>
      rw [hplace, mapError_ok, ok_bind] at h
      split at h
      · cases h
        exact Or.inl rfl
      · refine Or.inr ⟨p, rfl, ?_⟩
        cases hsymbol : symbolOf grammar number p r with
        | error e =>
          rw [hsymbol] at h
          cases h
          rfl
        | ok s =>
          rw [hsymbol] at h
          cases h

/-- A placed record has its cell at its place. -/
theorem placeOf?_of_place {cell : Position × Symbol} (h : place staged grammar placed number r = .ok cell) :
    placeOf? staged placed r = .ok cell.1 := by
  rw [place_eq] at h
  split at h
  · cases h
  · obtain ⟨p, hp, h⟩ := ok_of_bind h
    split at h
    · cases h
    · cases hsymbol : symbolOf grammar number p r with
      | error e =>
        rw [hsymbol] at h
        cases h
      | ok s =>
        rw [hsymbol] at h
        cases h
        exact ok_of_mapError hp

/-! ## Coordinates that can be written -/

/-- The cells placed can be written, and so many columns behind them. -/
def RoomFor (limit left : Nat) (placed : List (Position × Symbol)) : Prop :=
  ∀ c ∈ placed, c.1.row < limit ∧ c.1.column + left < limit ∧ ∀ l ∈ c.1.lane, l < limit

theorem hasLabel_eq_true (hrow : p.row < tooLong) (hcolumn : p.column < tooLong) (hlane : ∀ l ∈ p.lane, l < tooLong) :
    hasLabel p = true := by
  have hwritable : ∀ n < tooLong, isWritable n = true := by
    intro n hn
    unfold tooLong at hn
    unfold isWritable
    rw [decide_eq_true_iff]
    exact hn
  unfold hasLabel
  rw [hwritable _ hrow, hwritable _ hcolumn]
  cases hl : p.lane with
  | none => rfl
  | some l => simpa using hwritable l (hlane l hl)

theorem currentRow_lt {limit : Nat} (h : ∀ c ∈ placed, c.1.row < limit) (hlimit : 0 < limit) (lane : Option Int) :
    currentRow placed lane < limit := by
  unfold currentRow
  cases hfound : placed.find? (fun c => inLane lane c.1) with
  | none => exact hlimit
  | some c => exact h c (List.mem_of_find?_eq_some hfound)

theorem nextColumn_le {bound : Nat} (h : ∀ c ∈ placed, c.1.column + 1 ≤ bound) (lane : Option Int) (row : Int) :
    nextColumn placed lane row ≤ bound := by
  unfold nextColumn
  generalize hkept : placed.filter (fun c => inLane lane c.1 && decide ((c.1.row : Int) = row)) = kept
  have hin : ∀ c ∈ kept, c.1.column + 1 ≤ bound := by
    intro c hc
    rw [← hkept] at hc
    exact h c (List.mem_of_mem_filter hc)
  have hfold : ∀ n ≤ bound, kept.foldl (fun n c => max n (c.1.column + 1)) n ≤ bound := by
    clear hkept
    induction kept with
    | nil => exact fun n hn => hn
    | cons c kept ih =>
      intro n hn
      exact ih (fun d hd => hin d (by simp [hd])) _ (Nat.max_le.2 ⟨hn, hin c (by simp)⟩)
  exact hfold 0 (Nat.zero_le _)

variable {limit left : Nat}

/-- One more record leaves room for one column less. -/
theorem RoomFor.cons (h : RoomFor limit (left + 1) placed) (hlimit : left + 1 ≤ limit)
    (hr : ∀ x ∈ statedBy r, x + (left + 1 : Nat) ≤ limit) (hp : placeOf? staged placed r = .ok p) (s : Symbol) :
    RoomFor limit left ((p, s) :: placed) := by
  obtain ⟨hrow, hcolumn, hlane⟩ := make?_eq_ok hp
  have hold : ∀ c ∈ placed, c.1.row < limit ∧ c.1.column + left < limit ∧ ∀ l ∈ c.1.lane, l < limit := by
    intro c hc
    obtain ⟨hcrow, hccolumn, hclane⟩ := h c hc
    exact ⟨hcrow, by omega, hclane⟩
  intro c hc
  rcases List.mem_cons.1 hc with rfl | hc
  · refine ⟨?_, ?_, ?_⟩
    · cases hstated : r.row with
      | some x =>
        have hx := hr x (by simp [statedBy, hstated])
        rw [hstated, Option.getD_some] at hrow
        simp only
        omega
      | none =>
        have hcurrent := currentRow_lt (fun c hc => (h c hc).1) (by omega : 0 < limit) (laneOf staged r)
        rw [hstated, Option.getD_none] at hrow
        simp only
        omega
    · cases hstated : r.column with
      | some x =>
        have hx := hr x (by simp [statedBy, hstated])
        rw [hstated, Option.getD_some] at hcolumn
        simp only
        omega
      | none =>
        have hbound : ∀ c ∈ placed, c.1.column + 1 ≤ limit - (left + 1) := by
          intro c hc
          have hroom := (h c hc).2.1
          omega
        have hnext := nextColumn_le hbound (laneOf staged r) (r.row.getD (currentRow placed (laneOf staged r)))
        rw [hstated, Option.getD_none] at hcolumn
        simp only
        omega
    · intro l hl
      rw [Option.mem_def.1 hl, Option.map_some, laneOf] at hlane
      split at hlane
      · have hx := hr (Int.ofNat l) (by simp [statedBy, ← hlane])
        simp only [Int.ofNat_eq_natCast] at hx
        omega
      · cases hlane
  · exact hold c hc

/-! ## Streams -/

/-- A stream of records that pass their checks is refused for a place, or at a position that is too long to be written. -/
theorem placeAll_eq_error (hrecords : ∀ r ∈ records, r.fault? = none) (hknown : ∀ e ∈ grammar.readings, e.hint.isKnown = true)
    (h : placeAll staged grammar placed number records = .error fault) : fault.reason?.isSome = true ∨
      fault = .longPosition ∧ ¬(RoomFor tooLong records.length placed ∧ records.length ≤ tooLong ∧
        ∀ r ∈ records, ∀ x ∈ statedBy r, x + records.length ≤ tooLong) := by
  induction records generalizing placed number with
  | nil => cases h
  | cons r records ih =>
    rw [placeAll] at h
    -- a record that can be written is placed, and leaves room for the others
    cases hcell : place staged grammar placed number r with
    | error e =>
      rw [hcell] at h
      cases h
      rcases place_eq_error hcell with hreason | ⟨p, hp, hsymbol⟩
      · exact Or.inl hreason
      · obtain ⟨rfl, hlabel⟩ := symbolOf_eq_error (hrecords r (by simp)) hknown hsymbol
        refine Or.inr ⟨rfl, ?_⟩
        rintro ⟨hroom, hlength, hstated⟩
        rw [List.length_cons] at hroom hlength hstated
        have hplaced := hroom.cons hlength (hstated r (by simp)) hp ⟨"", .terminal, "", "", .identifier, 0, none, none, none⟩
        obtain ⟨hrow, hcolumn, hlane⟩ := hplaced _ List.mem_cons_self
        rw [hasLabel_eq_true hrow (by omega) hlane] at hlabel
        cases hlabel
    | ok cell =>
      rw [hcell, ok_bind] at h
      rcases ih (fun r hr => hrecords r (by simp [hr])) h with hreason | ⟨hlong, hnoroom⟩
      · exact Or.inl hreason
      · refine Or.inr ⟨hlong, ?_⟩
        rintro ⟨hroom, hlength, hstated⟩
        rw [List.length_cons] at hroom hlength hstated
        refine hnoroom ⟨hroom.cons hlength (hstated r (by simp)) (placeOf?_of_place hcell) cell.2, by omega, ?_⟩
        intro r' hr' x hx
        have hbound := hstated r' (by simp [hr']) x hx
        omega

/-- Records that pass their checks have a grid, or a fault with a reason code, or they state coordinates that are too long. -/
theorem organize_eq_error (hrecords : ∀ r ∈ records, r.fault? = none) (hknown : ∀ e ∈ grammar.readings, e.hint.isKnown = true)
    (h : organize records staged grammar = .error fault) : fault.reason?.isSome = true ∨ fault = .longPosition ∧ ¬Writable records := by
  have hplaced : placeAll staged grammar [] 1 records = .error fault := by
    rw [organize] at h
    cases hall : placeAll staged grammar [] 1 records with
    | error e =>
      rw [hall] at h
      cases h
      rfl
    | ok placed =>
      rw [hall] at h
      cases h
  rcases placeAll_eq_error hrecords hknown hplaced with hreason | ⟨hlong, hnoroom⟩
  · exact Or.inl hreason
  · refine Or.inr ⟨hlong, fun hwritable => hnoroom ⟨by simp [RoomFor], ?_, fun r hr x hx => ?_⟩⟩
    · have hzero := hwritable 0 (by simp)
      omega
    · exact hwritable x (List.mem_cons_of_mem _ (List.mem_flatMap.2 ⟨r, hr, hx⟩))

end Grid

end TokenForest
