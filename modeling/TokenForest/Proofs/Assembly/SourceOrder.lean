import TokenForest.Proofs.Assembly.Matching

/-!
# Source order

The terminals of an assembled forest come in source order, however their rows are nested into groups and blocks and whatever is left
out. Each wraps the symbol of the latest decision that admits one at its position.
-/

namespace TokenForest

namespace Assembly

variable {records : List TokenRecord} {staged : Bool} {source : Grammar} {grid : Grid} {decisions : List Decision} {p q : Position}

/-! ## Latest decisions -/

/-- What is assembled at a position is the symbol of the latest decision that admits one there, with its final confidence. -/
theorem latest_of_admittedAt? {item : Admitted} (h : admittedAt? decisions p = some item) :
    ∃ d, Latest decisions p d ∧ d.symbol = some item.symbol ∧ d.finalPsi = item.psi ∧ item.position = p := by
  obtain ⟨e, he, rfl⟩ := Option.map_eq_some_iff.1 h
  obtain ⟨d, hd, hsymbol⟩ := Option.bind_eq_some_iff.1 he
  obtain ⟨s, hs, rfl⟩ := Option.map_eq_some_iff.1 hsymbol
  obtain ⟨hfound, front, back, hreverse, hfront⟩ := List.find?_eq_some_iff_append.1 hd
  rw [Bool.and_eq_true, decide_eq_true_iff] at hfound
  refine ⟨d, ⟨hfound.1, hfound.2, back.reverse, front.reverse, ?_, fun e he hposition => ?_⟩, hs, rfl, rfl⟩
  · have hback := congrArg List.reverse hreverse
    rw [List.reverse_reverse, List.reverse_append, List.reverse_cons, List.append_assoc] at hback
    exact hback
  · have hnot := hfront e (List.mem_reverse.1 he)
    simpa [hposition] using hnot

/-- A terminal stands at a position of the grid and wraps the symbol of the latest decision that admits one there, with the final
confidence of the decision. -/
theorem latest_of_mem_terminals {grammar : Grammar} {info : NodeInfo}
    (hinfo : info ∈ SyntaxTree.terminals (ofDecisions decisions grid grammar).roots) : ∃ p ∈ grid.positions, info.position = some p ∧
      ∃ d s, Latest decisions p d ∧ d.symbol = some s ∧ info.symbol = some s ∧ info.confidence = d.finalPsi := by
  obtain ⟨_, hplaced⟩ := ofDecisions_spec decisions grid grammar
  obtain ⟨item, hitem, intent, rfl⟩ := hplaced.exists_item hinfo
  obtain ⟨hp, hadmitted⟩ := mem_admittedSymbols.1 hitem
  obtain ⟨d, hlatest, hsymbol, hpsi, _⟩ := latest_of_admittedAt? hadmitted
  exact ⟨item.position, hp, rfl, d, item.symbol, hlatest, hsymbol, rfl, hpsi.symm⟩

/-! ## The order of symbols and terminals -/

/-- The terminals of a grid's forest come in source order, and each one stands at a position of the grid and wraps the symbol of the
latest decision that admits one there, with the final confidence of the decision. -/
theorem ofDecisions_sourceOrder (h : Grid.organize records staged source = .ok grid) (decisions : List Decision) (grammar : Grammar) :
    (∃ ps : List Position, (SyntaxTree.terminals (ofDecisions decisions grid grammar).roots).map (·.position) = ps.map some ∧
      ps.Pairwise Position.Before) ∧
    ∀ info ∈ SyntaxTree.terminals (ofDecisions decisions grid grammar).roots, ∃ p ∈ grid.positions, info.position = some p ∧
      ∃ d s, Latest decisions p d ∧ d.symbol = some s ∧ info.symbol = some s ∧ info.confidence = d.finalPsi := by
  obtain ⟨_, hplaced⟩ := ofDecisions_spec decisions grid grammar
  have hsymbols : (admittedSymbols decisions grid).map (·.position) |>.Sublist grid.positions := by
    rw [admittedSymbols_eq, Grid.flatMap_lanes_eq (Grid.pairwise_positions h)]
    exact positions_filterMap_sublist decisions grid.positions
  constructor
  · have hterminals : ((SyntaxTree.terminals (ofDecisions decisions grid grammar).roots).map (·.position)).Sublist
        (((admittedSymbols decisions grid).map (·.position)).map some) := by
      rw [List.map_map]
      exact hplaced.positions_sublist
    obtain ⟨ps, hps, hmap⟩ := List.sublist_map_iff.1 hterminals
    exact ⟨ps, hmap, ((Grid.pairwise_before h).sublist hsymbols).sublist hps⟩
  · intro info hinfo
    exact latest_of_mem_terminals hinfo

/-- So do the terminals of the crossed brackets, when everything is decided on twice. -/
theorem ofDecisions_sourceOrder_crossed : Grid.organize crossedRecords crossedGrid.staged .default = .ok crossedGrid ∧
    ∃ ps : List Position, (SyntaxTree.terminals (ofDecisions (crossedDecisions ++ crossedDecisions) crossedGrid .default).roots).map
      (·.position) = ps.map some ∧ ps.Pairwise Position.Before :=
  ⟨organize_crossedRecords, (ofDecisions_sourceOrder organize_crossedRecords (crossedDecisions ++ crossedDecisions) .default).1⟩

end Assembly

end TokenForest
