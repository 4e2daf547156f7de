import TokenForest.Proofs.Assembly.Assembled

/-!
# The tokens of an assembled forest

The symbols that are assembled are those that the decisions admit, one for each such position. The terminals of the forest are
made of them in order, so at a position there is one terminal, or none and a note, or no symbol to begin with.
-/

namespace TokenForest

namespace Assembly

variable {n : Notes} {items : List Admitted} {infos : List NodeInfo} {item : Admitted} {decisions : List Decision}
  {grid : Grid} {p : Position}

/-! ## What symbols became -/

namespace Placed

/-- The terminals stand where the symbols stand, in the same order. -/
theorem positions_sublist (h : Placed n items infos) :
    (infos.map (·.position)).Sublist (items.map (fun item => some item.position)) := by
  induction h with
  | nil => exact List.Sublist.refl _
  | kept intent _ ih => exact ih.cons_cons _
  | lost _ _ ih => exact ih.cons _

/-- A symbol is a terminal with an intent of its own, or was lost. -/
theorem mem_or_lost (h : Placed n items infos) (hitem : item ∈ items) :
    (∃ intent, { terminalInfo item with intent } ∈ infos) ∨ Lost n item.position := by
  induction h with
  | nil => simp at hitem
  | kept intent _ ih =>
    rcases List.mem_cons.1 hitem with rfl | hitem
    · exact Or.inl ⟨intent, by simp⟩
    · rcases ih hitem with ⟨other, hmem⟩ | hlost
      · exact Or.inl ⟨other, by simp [hmem]⟩
      · exact Or.inr hlost
  | lost hlost _ ih =>
    rcases List.mem_cons.1 hitem with rfl | hitem
    · exact Or.inr hlost
    · exact ih hitem

/-- Every terminal was made of a symbol. -/
theorem exists_item (h : Placed n items infos) {info : NodeInfo} (hinfo : info ∈ infos) :
    ∃ item ∈ items, ∃ intent, info = { terminalInfo item with intent } := by
  induction h with
  | nil => simp at hinfo
  | kept intent _ ih =>
    rcases List.mem_cons.1 hinfo with rfl | hinfo
    · exact ⟨_, by simp, intent, rfl⟩
    · obtain ⟨item, hitem, other, heq⟩ := ih hinfo
      exact ⟨item, by simp [hitem], other, heq⟩
  | lost _ _ ih =>
    obtain ⟨item, hitem, other, heq⟩ := ih hinfo
    exact ⟨item, by simp [hitem], other, heq⟩

/-- Where no symbol stands there is no terminal. -/
theorem filter_eq_nil (h : Placed n items infos) (hp : ∀ item ∈ items, item.position ≠ p) :
    infos.filter (fun info => decide (info.position = some p)) = [] := by
  rw [List.filter_eq_nil_iff]
  intro info hinfo
  obtain ⟨item, hitem, intent, rfl⟩ := h.exists_item hinfo
  simpa [terminalInfo] using hp item hitem

/-- Where one symbol stands there is one terminal, made of the symbol, or none and a note. -/
theorem filter_eq (h : Placed n items infos) (hnodup : (items.map (·.position)).Nodup) (hitem : item ∈ items) :
    (∃ intent, infos.filter (fun info => decide (info.position = some item.position)) = [{ terminalInfo item with intent }]) ∨
      infos.filter (fun info => decide (info.position = some item.position)) = [] ∧ Lost n item.position := by
  have hpositions : (infos.map (·.position)).Nodup := by
    refine h.positions_sublist.nodup ?_
    have hsome := hnodup.map (f := some) (fun a b hab => Option.some.inj hab)
    rwa [List.map_map] at hsome
  by_cases hex : ∃ info ∈ infos, info.position = some item.position
  · obtain ⟨info, hinfo, hposition⟩ := hex
    obtain ⟨other, hother, intent, rfl⟩ := h.exists_item hinfo
    have heq : other = item := List.inj_on_of_nodup_map hnodup hother hitem (Option.some.inj hposition)
    subst heq
    exact Or.inl ⟨intent, filter_eq_singleton hpositions hinfo⟩
  · rcases h.mem_or_lost hitem with ⟨intent, hmem⟩ | hlost
    · exact absurd ⟨_, hmem, rfl⟩ hex
    · refine Or.inr ⟨List.filter_eq_nil_iff.2 fun info hinfo => ?_, hlost⟩
      simpa using fun hposition => hex ⟨info, hinfo, hposition⟩

end Placed

/-! ## The admitted symbols -/

/-- The symbol that the decisions admit at a position. -/
def admittedAt? (decisions : List Decision) (p : Position) : Option Admitted :=
  (admitted? decisions p).map (fun e => ⟨p, e.2, e.1.finalPsi, .unresolved⟩)

/-- The admitted symbols of a grid are those that the decisions admit at its positions, lane by lane and row by row. -/
theorem admittedSymbols_eq (decisions : List Decision) (grid : Grid) : admittedSymbols decisions grid =
    (grid.lanes.flatMap (fun lane => (grid.rows lane).flatMap (grid.rowPositions lane))).filterMap
      (admittedAt? decisions) := by
  simp only [admittedSymbols, admittedRows, List.filterMap_flatMap, List.flatMap_map]
  rfl

theorem mem_admittedSymbols : item ∈ admittedSymbols decisions grid ↔
    item.position ∈ grid.positions ∧ admittedAt? decisions item.position = some item := by
  rw [admittedSymbols_eq, List.mem_filterMap]
  constructor
  · rintro ⟨p, hp, hitem⟩
    obtain ⟨e, _, rfl⟩ := Option.map_eq_some_iff.1 hitem
    exact ⟨(Grid.flatMap_lanes_perm grid).mem_iff.1 hp, hitem⟩
  · rintro ⟨hp, hitem⟩
    exact ⟨_, (Grid.flatMap_lanes_perm grid).mem_iff.2 hp, hitem⟩

/-- The symbols at some positions stand there in the same order. -/
theorem positions_filterMap_sublist (decisions : List Decision) (ps : List Position) :
    ((ps.filterMap (admittedAt? decisions)).map (·.position)).Sublist ps := by
  induction ps with
  | nil => exact List.Sublist.refl _
  | cons p ps ih =>
    rw [List.filterMap_cons]
    split
    · exact ih.cons p
    · rename_i item hitem
      obtain ⟨e, _, rfl⟩ := Option.map_eq_some_iff.1 hitem
      exact ih.cons_cons p

/-- No two admitted symbols stand at one position. -/
theorem nodup_admittedSymbols (h : grid.positions.Nodup) : ((admittedSymbols decisions grid).map (·.position)).Nodup := by
  rw [admittedSymbols_eq]
  exact (positions_filterMap_sublist decisions _).nodup ((Grid.flatMap_lanes_perm grid).nodup_iff.2 h)

/-- What a single decision on a position admits there. -/
theorem admittedAt?_eq {d : Decision} (h : decisions.filter (fun d => decide (d.position = p)) = [d]) :
    admittedAt? decisions p = if d.status.isAdmitted then d.symbol.map (fun s => ⟨p, s, d.finalPsi, .unresolved⟩) else none := by
  have hreverse : decisions.reverse.filter (fun d => decide (d.position = p)) = [d] := by
    rw [List.filter_reverse, h]
    rfl
  have hfind : decisions.reverse.find? (fun d => decide (d.position = p) && d.status.isAdmitted) =
      [d].find? (fun d => d.status.isAdmitted) := by
    rw [← hreverse, List.find?_filter]
    simp
  rw [admittedAt?, admitted?, hfind, List.find?_singleton]
  split
  · rw [Option.bind_some, Option.map_map]
    rfl
  · rfl

end Assembly

end TokenForest
