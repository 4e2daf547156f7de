import TokenForest.Proofs.Assembly.Statements
import TokenForest.Proofs.Grid.Placement
import TokenForest.Proofs.Grid.Views

/-!
# The assembled forest

All roots of an assembled forest, and all its edges but those below statements whose intent was changed late, are permitted by
the grammar. That those edges may be refused is seen on two rows (`gate_overtaken`).
-/

namespace TokenForest

namespace Assembly

variable {grammar : Grammar} {n n' : Notes} {decisions : List Decision} {grid : Grid}

/-! ## The symbols of a grid -/

/-- The admitted symbols of a row stand in it. -/
theorem position_of_mem_admittedRow {ps : List Position} {item : Admitted} (h : item ∈ admittedRow decisions ps) :
    item.position ∈ ps := by
  obtain ⟨p, hp, hitem⟩ := List.mem_filterMap.1 h
  obtain ⟨e, _, rfl⟩ := Option.map_eq_some_iff.1 hitem
  exact hp

/-- The roots of some lanes, one lane after the other. -/
theorem lanes_of_run {lanes : List Lane} {roots : List (List SyntaxTree)}
    (h : (lanes.mapM (fun lane => laneRoots grammar lane (admittedRows grid decisions lane))).run n = (roots, n')) :
    n.Grows n' ∧ (∀ r ∈ roots.flatten, Rooted grammar (StatementIntent decisions grid) n' r) ∧
      Placed n' (lanes.flatMap (fun lane => (admittedRows grid decisions lane).flatMap (·.2)))
        (SyntaxTree.terminals roots.flatten) := by
  induction lanes generalizing n roots with
  | nil =>
    cases h
    exact ⟨Notes.Grows.refl _, by simp, .nil⟩
  | cons lane lanes ih =>
    obtain ⟨first, others, n₁, rfl, hfirst, hothers⟩ := run_mapM_cons h
    obtain ⟨hgrows, hroots, hplaced⟩ := ih hothers
    have hlane : n.Grows n₁ ∧ (∀ r ∈ first, Rooted grammar (StatementIntent decisions grid) n₁ r) ∧
        Placed n₁ ((admittedRows grid decisions lane).flatMap (·.2)) (SyntaxTree.terminals first) := by
      apply laneRoots_of_run _ _ hfirst
      · intro entry hentry item hitem
        obtain ⟨row, _, rfl⟩ := List.mem_map.1 hentry
        exact (Grid.mem_rowPositions.1 (position_of_mem_admittedRow hitem)).2
      · intro entry hentry left hleft hne
        obtain ⟨row, _, rfl⟩ := List.mem_map.1 hentry
        exact ⟨lane, row, left, rfl, hleft, hne, rfl⟩
    obtain ⟨hgrows', hroots', hplaced'⟩ := hlane
    refine ⟨hgrows'.trans hgrows, fun r hr => ?_, ?_⟩
    · rcases List.mem_append.1 hr with hr | hr
      · exact ⟨(hroots' r hr).1, (hroots' r hr).2.mono (Gated.mono hgrows)⟩
      · exact hroots r hr
    · rw [List.flatten_cons, SyntaxTree.terminals_append, List.flatMap_cons]
      exact (hplaced'.mono hgrows).append hplaced

/-- Every root of an assembled forest went through the gate with all that is below it, and every admitted symbol became one
terminal or was noted. -/
theorem ofDecisions_spec (decisions : List Decision) (grid : Grid) (grammar : Grammar) :
    (∀ r ∈ (ofDecisions decisions grid grammar).roots,
      Rooted grammar (StatementIntent decisions grid) (ofDecisions decisions grid grammar).notes r) ∧
    Placed (ofDecisions decisions grid grammar).notes (admittedSymbols decisions grid)
      (SyntaxTree.terminals (ofDecisions decisions grid grammar).roots) := by
  obtain ⟨trees, hrun, hroots⟩ := exists_run_ofDecisions decisions grid grammar
  rw [hroots]
  exact (lanes_of_run hrun).2

/-! ## The gate over the whole forest -/

/-- The gate over an assembled forest: every root is permitted, and an edge is permitted or lies below a statement whose intent
was changed after the child had been checked against the one before. So all edges are permitted exactly when those below the
changed statements are. -/
theorem ofDecisions_gate (decisions : List Decision) (grid : Grid) (grammar : Grammar) :
    (∀ r ∈ (ofDecisions decisions grid grammar).roots, grammar.permits none r.info.intent = true) ∧
    (∀ r ∈ (ofDecisions decisions grid grammar).roots, ∀ e ∈ r.edges, Permitted grammar e.1 e.2 ∨
      Overtaken grammar (StatementIntent decisions grid) (ofDecisions decisions grid grammar).notes e.1 e.2) ∧
    ((∀ r ∈ (ofDecisions decisions grid grammar).roots, ∀ e ∈ r.edges, Permitted grammar e.1 e.2) ↔
      ∀ r ∈ (ofDecisions decisions grid grammar).roots, ∀ e ∈ r.edges, e.1.label = "statement" →
        e.1.id ∈ (ofDecisions decisions grid grammar).notes.coerced → Permitted grammar e.1 e.2) := by
  obtain ⟨hrooted, _⟩ := ofDecisions_spec decisions grid grammar
  refine ⟨fun r hr => (hrooted r hr).1, fun r hr => (hrooted r hr).2, fun h r hr e he _ _ => h r hr e he, ?_⟩
  intro h r hr e he
  rcases (hrooted r hr).2 e he with hp | ho
  · exact hp
  · exact h r hr e he ho.statement ho.coerced

/-- Two rows: a name opens a block, and a condition with a type stands in it. -/
def overtakenRecords : List TokenRecord := [
  ⟨.terminal, "identifier", "foo", some 0, some 0, none, none, none, "", 1⟩,
  ⟨.delimiter, "delimiter", "\x7b", some 0, some 1, none, none, none, "", 1⟩,
  ⟨.terminal, "keyword.control", "if", some 1, some 0, none, none, none, "", 1⟩,
  ⟨.terminal, "keyword.type", "int", some 1, some 1, none, none, none, "", 1⟩]

/-- The symbol of one of the records. -/
def overtakenSymbol (number : Nat) (symbolClass : SymbolClass) (typeTag lexeme : String) (hint : Hint) (p : Position) :
    Position × Symbol :=
  (p, ⟨Grid.symbolName number p, symbolClass, lexeme, typeTag, hint, 1, none, none, none⟩)

/-- The grid of the two rows. -/
def overtakenGrid : Grid where
  staged := false
  cells := [
    overtakenSymbol 1 .terminal "identifier" "foo" .identifier ⟨0, 0, none⟩,
    overtakenSymbol 2 .delimiter "delimiter" "\x7b" .delimiter ⟨0, 1, none⟩,
    overtakenSymbol 3 .terminal "keyword.control" "if" .controlKeyword ⟨1, 0, none⟩,
    overtakenSymbol 4 .terminal "keyword.type" "int" .typeKeyword ⟨1, 1, none⟩]

/-- Every symbol of the two rows is accepted. -/
def overtakenDecisions : List Decision :=
  overtakenGrid.cells.map (fun cell => Decision.accept cell.1 cell.2 ⟨⟨1, 1, 1, 1, by decide +kernel⟩, 1⟩ 0)

/-- The gate does not hold of all edges: the condition becomes a query below the call that opened the block, and the type stays
below it. -/
theorem gate_overtaken : Grid.organize overtakenRecords false .default = .ok overtakenGrid ∧
    ¬∀ r ∈ (ofDecisions overtakenDecisions overtakenGrid .default).roots, ∀ e ∈ r.edges, Permitted .default e.1 e.2 := by
  have hgrid : Grid.organize overtakenRecords overtakenGrid.staged .default = .ok overtakenGrid :=
    Grid.organize_of_ordered (by decide +kernel) (by decide +kernel) (by decide +kernel)
  exact ⟨hgrid, by decide +kernel⟩

end Assembly

end TokenForest
