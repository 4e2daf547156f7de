import TokenForest.Proofs.Batch.Interleaving

/-!
# Stages, processes and phases without staging

Without staging the stage, process and phase of a record go into its symbol and nowhere else: every record stands in the one lane, and
the checks of its symbol do not read them. So records without them get the grid that has none in its symbols, or are refused alike. From
the symbols they are copied into other readings, nodes and merged classes, but nothing reads them on the way, and no report shows them.
-/

namespace TokenForest

namespace Grid

variable (grammar : Grammar) (number : Nat) (placed : List (Position × Symbol))

/-- The symbol of a record without stages is the symbol of the record without them. -/
theorem symbolOf_unstaged (p : Position) (r : TokenRecord) :
    symbolOf grammar number p r.unstaged = (symbolOf grammar number p r).map Symbol.stageless := by
  have hhint : grammar.hintOf? r.unstaged.symbolClass r.unstaged.typeTag r.unstaged.intentHint =
      grammar.hintOf? r.symbolClass r.typeTag r.intentHint := rfl
  unfold symbolOf
  rw [hhint]
  split
  · rfl
  · cases grammar.hintOf? r.symbolClass r.typeTag r.intentHint with
    | none => rfl
    | some hint =>
      let symbol : Symbol := ⟨symbolName number p, r.symbolClass, r.lexeme, r.typeTag, hint, r.score, r.stage, r.process, r.phase⟩
      change symbol.stageless.check.mapError Fault.badSymbol = (symbol.check.mapError Fault.badSymbol).map Symbol.stageless
      have hfault : symbol.stageless.fault? = symbol.fault? := rfl
      unfold Symbol.check
      rw [hfault]
      cases symbol.fault? <;> rfl

/-- A record without stages is placed where the record is placed. -/
theorem place_unstaged (r : TokenRecord) :
    place false grammar (placed.map (eraseCell Symbol.stageless)) number r.unstaged =
      (place false grammar placed number r).map (eraseCell Symbol.stageless) := by
  have hrow : ∀ lane, currentRow (placed.map (eraseCell Symbol.stageless)) lane = currentRow placed lane := by
    intro lane
    rw [currentRow_eq, currentRow_eq, lanePlaces_map]
  have hcolumn : ∀ lane row, nextColumn (placed.map (eraseCell Symbol.stageless)) lane row = nextColumn placed lane row := by
    intro lane row
    rw [nextColumn_eq, nextColumn_eq, lanePlaces_map]
  have hplace : placeOf? false (placed.map (eraseCell Symbol.stageless)) r.unstaged = placeOf? false placed r := by
    unfold placeOf?
    simp only [hrow, hcolumn]
    rfl
  have hlane : ∀ r, laneOf false r = none := fun _ => rfl
  have hstated : r.unstaged.row = r.row ∧ r.unstaged.lexeme = r.lexeme := ⟨rfl, rfl⟩
  rw [place_eq, place_eq, hplace, hrow, hstated.1, hstated.2, hlane, hlane]
  split
  · rfl
  · cases placeOf? false placed r with
    | error fault => rfl
    | ok p =>
      rw [mapError_ok, ok_bind, ok_bind, symbolOf_unstaged, List.any_map]
      change (if placed.any (fun c => decide (c.1 = p)) then _ else _) = _
      split
      · rfl
      · cases symbolOf grammar number p r <;> rfl

/-- Records without stages are placed where the records are placed. -/
theorem placeAll_unstaged (records : List TokenRecord) :
    placeAll false grammar (placed.map (eraseCell Symbol.stageless)) number (records.map TokenRecord.unstaged) =
      (placeAll false grammar placed number records).map (List.map (eraseCell Symbol.stageless)) := by
  induction records generalizing placed number with
  | nil => rfl
  | cons r records ih =>
    rw [List.map_cons, placeAll, placeAll, place_unstaged]
    cases place false grammar placed number r with
    | error fault => rfl
    | ok cell => exact ih (number + 1) (cell :: placed)

/-- The grid of records without stages is the grid of the records without them, and a fault of the one is a fault of the other. -/
theorem organize_unstaged (records : List TokenRecord) :
    organize (records.map TokenRecord.unstaged) false grammar = (organize records false grammar).map (Grid.erase Symbol.stageless) := by
  have hall := placeAll_unstaged grammar 1 [] records
  rw [List.map_nil] at hall
  unfold organize
  rw [hall]
  cases placeAll false grammar [] 1 records with
  | error fault => rfl
  | ok placed =>
    have hsort : (sortCells placed).map (eraseCell Symbol.stageless) = sortCells (placed.map (eraseCell Symbol.stageless)) :=
      List.map_mergeSort fun _ _ _ _ => rfl
    exact congrArg (fun cells => Except.ok (⟨false, cells⟩ : Grid)) hsort.symm

end Grid

namespace Batch

variable {records records' : List TokenRecord} {config : Config}

/-- Without staging, streams that differ only in stages, processes and phases stop with the same fault or have the same report. -/
theorem run_unstaged (grammar : Grammar) (h : records.map TokenRecord.unstaged = records'.map TokenRecord.unstaged)
    (hoff : config.staging.enabled = false) (merging : Bool) :
    (run records config grammar .standard .never merging).map Report.batchJson =
      (run records' config grammar .standard .never merging).map Report.batchJson := by
  have hgrids : (Grid.organize records config.staging.enabled grammar).map (Grid.erase Symbol.stageless) =
      (Grid.organize records' config.staging.enabled grammar).map (Grid.erase Symbol.stageless) := by
    rw [hoff, ← Grid.organize_unstaged, ← Grid.organize_unstaged, h]
  cases hgrid : Grid.organize records config.staging.enabled grammar with
  | error fault =>
    cases hgrid' : Grid.organize records' config.staging.enabled grammar with
    | error fault' =>
      rw [hgrid, hgrid'] at hgrids
      cases hgrids
      rw [run, run, hgrid, hgrid']
    | ok grid' =>
      rw [hgrid, hgrid'] at hgrids
      cases hgrids
  | ok grid =>
    cases hgrid' : Grid.organize records' config.staging.enabled grammar with
    | error fault' =>
      rw [hgrid, hgrid'] at hgrids
      cases hgrids
    | ok grid' =>
      rw [hgrid, hgrid'] at hgrids
      exact report_alike (.stages hoff) hgrid hgrid' (Except.ok.inj hgrids) merging

/-- The two records of which one is no identifier, bound to stages, processes and phases. -/
def boundRecords : List TokenRecord := [
  ⟨.terminal, "identifier", "x", none, none, some 3, some (-1), none, "", 1⟩,
  ⟨.terminal, "identifier", "@@", none, none, none, some 7, some 2, "", 1⟩]

/-- They have the report of the two records that are bound to nothing, merged. -/
theorem run_unstaged_bound : boundRecords.map TokenRecord.unstaged = twoRecords.map TokenRecord.unstaged ∧ ∃ batch batch',
    run boundRecords .default .default .standard .never true = .ok batch ∧
    run twoRecords .default .default .standard .never true = .ok batch' ∧ Report.batchJson batch = Report.batchJson batch' := by
  have hsame : boundRecords.map TokenRecord.unstaged = twoRecords.map TokenRecord.unstaged := rfl
  have hreport := run_unstaged .default hsame (rfl : Config.default.staging.enabled = false) true
  obtain ⟨batch', hbatch'⟩ := exists_run_twoRecords true
  rw [hbatch'] at hreport
  cases hbatch : run boundRecords .default .default .standard .never true with
  | error fault =>
    rw [hbatch] at hreport
    cases hreport
  | ok batch =>
    rw [hbatch] at hreport
    exact ⟨hsame, batch, batch', rfl, hbatch', Except.ok.inj hreport⟩

end Batch

end TokenForest
