import TokenForest.Proofs.Assembly.Following
import TokenForest.Proofs.Assembly.Tokens
import TokenForest.Proofs.Binary64.Order

/-!
# The blocks of an assembled forest

The warnings about blocks are about the closers and openers that stayed alone when the brackets of each lane are matched without
any tree, and a closer stands in no block but that of its opener. An opener whose block or statement was left out takes no part
in the matching, so its closer meets an opener further out (`crossed_blocks`).
-/

namespace TokenForest

namespace Assembly

variable {grammar : Grammar} {n n' : Notes} {decisions : List Decision} {grid : Grid}

/-! ## The end of a lane -/

/-- The blocks that are open at the end are warned about. -/
theorem warn_unclosed {blocks : List OpenBlock} {ps : List Position} {u : Unit} (hblocks : List.Forall₂ WaitsAt blocks ps)
    (h : (blocks.forM (fun b => (modify fun n => n.warn s!"unclosed_block:{b.node.info.id}" : Noting Unit))).run n = (u, n')) :
    n'.mismatches = n.mismatches ∧ strayWarnings n' = strayWarnings n ∧
      unclosedWarnings n' = unclosedWarnings n ++ ps.map unclosedText := by
  induction hblocks generalizing n with
  | nil =>
    cases h
    simp
  | cons hblock hrest ih =>
    rename_i block p blocks ps
    obtain ⟨_, n₁, hwarn, h⟩ := run_bind h
    obtain ⟨hstray, hunclosed⟩ := ofKind_unclosedText p
    have hn₁ : n₁ = n.warn (unclosedText p) := by
      cases hwarn
      rw [unclosedText, ← hblock.1]
    obtain ⟨hmismatches, hstrays, hopen⟩ := ih h
    subst hn₁
    refine ⟨hmismatches, ?_, ?_⟩
    · rw [hstrays]
      simp [strayWarnings, Notes.warn, hstray]
    · rw [hopen]
      simp [unclosedWarnings, Notes.warn, hunclosed]

/-- The finished roots of a lane, and what was noted on its blocks. -/
theorem laneRoots_follows {laneId : Lane} {rows : List (Nat × List Admitted)} {roots : List SyntaxTree}
    (hplace : ∀ entry ∈ rows, ∀ item ∈ entry.2, item.position.lane = laneId ∧ item.position.row = entry.1)
    (hnodup : (rows.map (·.1)).Nodup) (h : (laneRoots grammar laneId rows).run n = (roots, n')) :
    ∃ ms, n'.mismatches = n.mismatches ++ ms ∧ LeftOutIn (rows.flatMap (·.2)) ms ∧
      strayWarnings n' = strayWarnings n ++ (Brackets.ofRows grammar (refused ms) rows).strays.map strayText ∧
      unclosedWarnings n' = unclosedWarnings n ++ (Brackets.ofRows grammar (refused ms) rows).waiting.reverse.map unclosedText ∧
      ∀ r ∈ roots, ∃ t : SyntaxTree, t.prune? = some r ∧ t.Linked (Bounded (Brackets.ofRows grammar (refused ms) rows)) := by
  obtain ⟨lane, n₁, hrun, h⟩ := run_bind h
  obtain ⟨ms, hms, hlocated, hf⟩ := addRows_follows (Follows.empty n) hplace hnodup hrun
  obtain ⟨_, n₂, hwarn, h⟩ := run_bind h
  cases h
  obtain ⟨hmismatches, hstrays, hunclosed⟩ := warn_unclosed (List.forall₂_reverse_iff.2 hf.blocks) hwarn
  refine ⟨ms, hmismatches.trans hms, hlocated, hstrays.trans hf.strays, ?_, ?_⟩
  · rw [hunclosed, hf.unclosed]
    rfl
  · intro r hr
    rw [SyntaxTree.pruneAll_eq] at hr
    obtain ⟨t, ht, hprune⟩ := List.mem_filterMap.1 hr
    exact ⟨t, hprune, hf.linked.closeLane t ht⟩

/-! ## All lanes -/

/-- The admitted symbols of a row stand in it. -/
theorem place_of_mem_admittedRows {lane : Lane} {entry : Nat × List Admitted} (h : entry ∈ admittedRows grid decisions lane) :
    ∀ item ∈ entry.2, item.position.lane = lane ∧ item.position.row = entry.1 := by
  obtain ⟨row, _, rfl⟩ := List.mem_map.1 h
  intro item hitem
  exact (Grid.mem_rowPositions.1 (position_of_mem_admittedRow hitem)).2

theorem lane_of_mem_admittedRows {lane : Lane} {item : Admitted}
    (h : item ∈ (admittedRows grid decisions lane).flatMap (·.2)) : item.position.lane = lane := by
  obtain ⟨entry, hentry, hitem⟩ := List.mem_flatMap.1 h
  exact (place_of_mem_admittedRows hentry item hitem).1

/-- The rows of a lane have the numbers of the rows of the grid. -/
theorem map_fst_admittedRows (lane : Lane) : (admittedRows grid decisions lane).map (·.1) = grid.rows lane := by
  unfold admittedRows
  rw [List.map_map]
  exact List.map_id _

/-- The rows of a lane have different numbers. -/
theorem nodup_admittedRows (lane : Lane) : ((admittedRows grid decisions lane).map (·.1)).Nodup := by
  rw [map_fst_admittedRows]
  exact Grouping.nodup_eraseDups _

/-- Notes on other lanes change no brackets. -/
theorem laneBrackets_congr {ms ms' : List Mismatch} {lane : Lane}
    (h : ∀ p : Position, p.lane = lane → refused ms p = refused ms' p) :
    laneBrackets grammar decisions grid ms lane = laneBrackets grammar decisions grid ms' lane := by
  unfold laneBrackets Brackets.ofRows
  apply Brackets.addRows_congr
  intro item hitem
  exact h _ (lane_of_mem_admittedRows hitem)

/-- What was left out in other lanes, later or before, changes no brackets. -/
theorem laneBrackets_append {ms ms' : List Mismatch} {lane : Lane}
    (h : ∀ m ∈ ms', ∃ q, m.position = some q ∧ q.lane ≠ lane) :
    laneBrackets grammar decisions grid (ms ++ ms') lane = laneBrackets grammar decisions grid ms lane ∧
      laneBrackets grammar decisions grid (ms' ++ ms) lane = laneBrackets grammar decisions grid ms lane := by
  have helse : ∀ p : Position, p.lane = lane → refused ms' p = false := by
    rintro p rfl
    apply refused_of_elsewhere
    intro m hm
    obtain ⟨q, hq, hne⟩ := h m hm
    exact ⟨q, hq, fun hsame => hne hsame.1⟩
  constructor
  · apply laneBrackets_congr
    intro p hp
    rw [refused_append, helse p hp, Bool.or_false]
  · apply laneBrackets_congr
    intro p hp
    rw [refused_append, helse p hp, Bool.false_or]

/-- What assembling some lanes notes on their blocks, and the edges of their roots. -/
theorem lanes_follow {lanes : List Lane} {roots : List (List SyntaxTree)} (hnodup : lanes.Nodup)
    (h : (lanes.mapM (fun lane => laneRoots grammar lane (admittedRows grid decisions lane))).run n = (roots, n')) :
    ∃ ms, n'.mismatches = n.mismatches ++ ms ∧ (∀ m ∈ ms, ∃ q, m.position = some q ∧ q.lane ∈ lanes) ∧
      strayWarnings n' = strayWarnings n ++
        lanes.flatMap (fun lane => (laneBrackets grammar decisions grid ms lane).strays.map strayText) ∧
      unclosedWarnings n' = unclosedWarnings n ++
        lanes.flatMap (fun lane => (laneBrackets grammar decisions grid ms lane).waiting.reverse.map unclosedText) ∧
      ∀ r ∈ roots.flatten, ∃ lane ∈ lanes, ∃ t : SyntaxTree, t.prune? = some r ∧
        t.Linked (Bounded (laneBrackets grammar decisions grid ms lane)) := by
  induction lanes generalizing n roots with
  | nil =>
    cases h
    exact ⟨[], by simp⟩
  | cons lane lanes ih =>
    rw [List.nodup_cons] at hnodup
    obtain ⟨first, others, n₁, rfl, hfirst, hothers⟩ := run_mapM_cons h
    obtain ⟨ms₁, hms₁, hlocated₁, hstrays₁, hunclosed₁, hlinked₁⟩ := laneRoots_follows
      (fun entry hentry => place_of_mem_admittedRows hentry) (nodup_admittedRows lane) hfirst
    obtain ⟨ms₂, hms₂, hlocated₂, hstrays₂, hunclosed₂, hlinked₂⟩ := ih hnodup.2 hothers
    have hhere : laneBrackets grammar decisions grid (ms₁ ++ ms₂) lane = laneBrackets grammar decisions grid ms₁ lane := by
      apply (laneBrackets_append _).1
      intro m hm
      obtain ⟨q, hq, hmem⟩ := hlocated₂ m hm
      refine ⟨q, hq, ?_⟩
      rintro rfl
      exact hnodup.1 hmem
    have hthere : ∀ other ∈ lanes, laneBrackets grammar decisions grid (ms₁ ++ ms₂) other =
        laneBrackets grammar decisions grid ms₂ other := by
      intro other hother
      apply (laneBrackets_append _).2
      intro m hm
      obtain ⟨item, hitem, hposition⟩ := hlocated₁ m hm
      refine ⟨item.position, hposition, ?_⟩
      rw [lane_of_mem_admittedRows hitem]
      rintro rfl
      exact hnodup.1 hother
    refine ⟨ms₁ ++ ms₂, ?_, ?_, ?_, ?_, ?_⟩
    · rw [hms₂, hms₁, List.append_assoc]
    · intro m hm
      rcases List.mem_append.1 hm with hm | hm
      · obtain ⟨item, hitem, hposition⟩ := hlocated₁ m hm
        exact ⟨item.position, hposition, by simp [lane_of_mem_admittedRows hitem]⟩
      · obtain ⟨q, hq, hmem⟩ := hlocated₂ m hm
        exact ⟨q, hq, List.mem_cons_of_mem _ hmem⟩
    · rw [hstrays₂, hstrays₁, List.append_assoc, List.flatMap_cons, hhere]
      congr 2
      apply List.flatMap_congr
      intro other hother
      rw [hthere other hother]
    · rw [hunclosed₂, hunclosed₁, List.append_assoc, List.flatMap_cons, hhere]
      congr 2
      apply List.flatMap_congr
      intro other hother
      rw [hthere other hother]
    · intro r hr
      rcases List.mem_append.1 hr with hr | hr
      · refine ⟨lane, by simp, ?_⟩
        rw [hhere]
        exact hlinked₁ r hr
      · obtain ⟨other, hother, t, hprune, hlinked⟩ := hlinked₂ r hr
        refine ⟨other, List.mem_cons_of_mem _ hother, t, hprune, ?_⟩
        rw [hthere other hother]
        exact hlinked

/-- The blocks of a forest against the brackets of its lanes. The roots are what pruning leaves of trees in which a symbol below a
block is a bracket of the block. -/
theorem ofDecisions_follows (decisions : List Decision) (grid : Grid) (grammar : Grammar) :
    strayWarnings (ofDecisions decisions grid grammar).notes = grid.lanes.flatMap (fun lane =>
      (laneBrackets grammar decisions grid (ofDecisions decisions grid grammar).notes.mismatches lane).strays.map strayText) ∧
    unclosedWarnings (ofDecisions decisions grid grammar).notes = grid.lanes.flatMap (fun lane =>
      (laneBrackets grammar decisions grid (ofDecisions decisions grid grammar).notes.mismatches lane).waiting.reverse.map
        unclosedText) ∧
    ∀ r ∈ (ofDecisions decisions grid grammar).roots, ∃ lane ∈ grid.lanes, ∃ t : SyntaxTree, t.prune? = some r ∧
      t.Linked (Bounded (laneBrackets grammar decisions grid (ofDecisions decisions grid grammar).notes.mismatches lane)) := by
  obtain ⟨trees, hrun, hroots⟩ := exists_run_ofDecisions decisions grid grammar
  obtain ⟨ms, hms, _, hstrays, hunclosed, hlinked⟩ := lanes_follow (Grouping.nodup_eraseDups _) hrun
  have hmismatches : (ofDecisions decisions grid grammar).notes.mismatches = ms := hms
  rw [hroots, hmismatches]
  exact ⟨hstrays, hunclosed, hlinked⟩

/-- The roots are what pruning leaves of trees in which only constructs have children. -/
theorem exists_ownedByConstructs {r : SyntaxTree} (hr : r ∈ (ofDecisions decisions grid grammar).roots) :
    ∃ t : SyntaxTree, t.prune? = some r ∧ t.OwnedByConstructs := by
  obtain ⟨_, _, hunpruned⟩ := ofDecisions_follows decisions grid grammar
  obtain ⟨_, _, t, hprune, hlinked⟩ := hunpruned r hr
  exact ⟨t, hprune, hlinked.mono fun _ _ hb => hb.1⟩

/-! ## The blocks of a grid -/

/-- In a grid without repeated positions a lane has none either. -/
theorem nodup_lane (h : grid.positions.Nodup) {lane : Lane} (hlane : lane ∈ grid.lanes) :
    (((admittedRows grid decisions lane).flatMap (·.2)).map (·.position)).Nodup := by
  have hall : ((admittedSymbols decisions grid).map (·.position)).Nodup := nodup_admittedSymbols h
  unfold admittedSymbols at hall
  rw [List.map_flatMap, List.nodup_flatMap] at hall
  exact hall.1 lane hlane

/-- A bracket of a lane stands in the lane. -/
theorem lane_of_mem_laneBrackets {ms : List Mismatch} {lane : Lane} {p : Position}
    (h : p ∈ (laneBrackets grammar decisions grid ms lane).openers ++ (laneBrackets grammar decisions grid ms lane).closers) :
    p.lane = lane := by
  obtain ⟨item, hitem, rfl⟩ := List.mem_map.1 (Brackets.mem_of_mem_ofRows h)
  exact lane_of_mem_admittedRows hitem

/-- A symbol that closes one block is in no other one, neither as its opener nor as its closer. -/
theorem opener_unique (hnodup : grid.positions.Nodup) {ms : List Mismatch} {lane other : Lane} (hlane : lane ∈ grid.lanes)
    {q q' p : Position} (hpair : (q, p) ∈ (laneBrackets grammar decisions grid ms lane).pairs)
    (h : p = q' ∧ q' ∈ (laneBrackets grammar decisions grid ms other).openers ∨
      (q', p) ∈ (laneBrackets grammar decisions grid ms other).pairs) : q' = q := by
  have hcloser : p ∈ (laneBrackets grammar decisions grid ms lane).closers := List.mem_map_of_mem (f := Prod.snd) hpair
  have hbrackets : ((laneBrackets grammar decisions grid ms lane).openers ++
      (laneBrackets grammar decisions grid ms lane).closers).Nodup := Brackets.nodup_ofRows (nodup_lane hnodup hlane)
  have hplane := lane_of_mem_laneBrackets (List.mem_append_right _ hcloser)
  rcases h with ⟨rfl, hopener⟩ | hpair'
  · have hsame := lane_of_mem_laneBrackets (List.mem_append_left _ hopener)
    rw [← hsame, hplane] at hopener
    exact absurd rfl ((List.nodup_append.1 hbrackets).2.2 p hopener p hcloser)
  · have hcloser' : p ∈ (laneBrackets grammar decisions grid ms other).closers := List.mem_map_of_mem (f := Prod.snd) hpair'
    have hsame := lane_of_mem_laneBrackets (List.mem_append_right _ hcloser')
    rw [← hsame, hplane] at hpair'
    have hclosers : ((laneBrackets grammar decisions grid ms lane).pairs.map Prod.snd).Nodup :=
      (List.nodup_append.1 hbrackets).2.1
    exact congrArg Prod.fst (List.inj_on_of_nodup_map hclosers hpair' hpair rfl)

/-- The blocks of a forest follow the brackets of the rows, whatever else the gate leaves out: only an opener whose own block or
statement was left out takes no part. -/
theorem ofDecisions_blocksMatch {records : List TokenRecord} {staged : Bool} {reading : Grammar}
    (h : Grid.organize records staged reading = .ok grid) (decisions : List Decision) (grammar : Grammar) :
    BlocksMatch grammar decisions grid (ofDecisions decisions grid grammar) := by
  obtain ⟨hstrays, hunclosed, hlinked⟩ := ofDecisions_follows decisions grid grammar
  have hnodup := Grid.nodup_positions h
  refine ⟨hstrays, hunclosed, ?_, ?_⟩
  · intro lane hlane q p hpair r hr e he hlabel hkind hposition
    obtain ⟨other, _, t, hprune, ht⟩ := hlinked r hr
    obtain ⟨q', p', hid, hq, hp, hbracket⟩ := (ht.prune? bounded_ignoresConfidence hprune e he).2 hlabel hkind
    obtain rfl : p' = p := Option.some.inj (hp.symm.trans hposition)
    obtain rfl : q' = q := opener_unique hnodup hlane hpair hbracket
    exact ⟨hid, hq⟩
  · intro lane hnone
    unfold laneBrackets Brackets.ofRows
    apply Brackets.addRows_congr
    intro item hitem
    apply hnone
    obtain ⟨entry, hentry, hitem⟩ := List.mem_flatMap.1 hitem
    obtain ⟨row, _, rfl⟩ := List.mem_map.1 hentry
    exact List.mem_of_mem_filter (position_of_mem_admittedRow hitem)

/-- Four rows: a query opens a block, a type opens one in it, and two closers follow. -/
def crossedRecords : List TokenRecord := [
  ⟨.query, "query", "?", some 0, some 0, none, none, none, "", 1⟩,
  ⟨.delimiter, "delimiter", "\x7b", some 0, some 1, none, none, none, "", 1⟩,
  ⟨.terminal, "keyword.type", "int", some 1, some 0, none, none, none, "", 1⟩,
  ⟨.delimiter, "delimiter", "\x7b", some 1, some 1, none, none, none, "", 1⟩,
  ⟨.closure, "closure", "\x7d", some 2, some 0, none, none, none, "", 1⟩,
  ⟨.closure, "closure", "\x7d", some 3, some 0, none, none, none, "", 1⟩]

/-- The grid of the four rows. -/
def crossedGrid : Grid where
  staged := false
  cells := [
    overtakenSymbol 1 .query "query" "?" .query ⟨0, 0, none⟩,
    overtakenSymbol 2 .delimiter "delimiter" "\x7b" .delimiter ⟨0, 1, none⟩,
    overtakenSymbol 3 .terminal "keyword.type" "int" .typeKeyword ⟨1, 0, none⟩,
    overtakenSymbol 4 .delimiter "delimiter" "\x7b" .delimiter ⟨1, 1, none⟩,
    overtakenSymbol 5 .closure "closure" "\x7d" .closure ⟨2, 0, none⟩,
    overtakenSymbol 6 .closure "closure" "\x7d" .closure ⟨3, 0, none⟩]

theorem inUnit_full : ([1, 1, 1, 1] : List Binary64).all Binary64.inUnit = true := by simp [Binary64.inUnit_one]

/-- Every symbol of the four rows is accepted. -/
def crossedDecisions : List Decision :=
  crossedGrid.cells.map (fun cell => Decision.accept cell.1 cell.2 ⟨⟨1, 1, 1, 1, inUnit_full⟩, 1⟩ 0)

theorem organize_crossedRecords : Grid.organize crossedRecords crossedGrid.staged .default = .ok crossedGrid :=
  Grid.organize_of_ordered (by decide +kernel) (by decide +kernel) (by decide +kernel)

/-- The blocks of the four rows, of which one statement is left out. -/
theorem ofDecisions_blocksMatch_crossed : Grid.organize crossedRecords false .default = .ok crossedGrid ∧
    BlocksMatch .default crossedDecisions crossedGrid (ofDecisions crossedDecisions crossedGrid .default) :=
  ⟨organize_crossedRecords, ofDecisions_blocksMatch organize_crossedRecords crossedDecisions .default⟩

/-- Where a statement is left out the blocks do not follow the brackets as they stand: the declaration may not stand below the
query, so the closer of its block closes the block of the query, and the closer of that block is a stray. -/
theorem crossed_blocks : Grid.organize crossedRecords false .default = .ok crossedGrid ∧
    Brackets.ofRows .default (fun _ => false) (admittedRows crossedGrid crossedDecisions none) =
      ⟨[], [(⟨1, 1, none⟩, ⟨2, 0, none⟩), (⟨0, 1, none⟩, ⟨3, 0, none⟩)], []⟩ ∧
    strayWarnings (ofDecisions crossedDecisions crossedGrid .default).notes = [strayText ⟨3, 0, none⟩] ∧
    ∃ r ∈ (ofDecisions crossedDecisions crossedGrid .default).roots, ∃ e ∈ r.edges,
      e.1.id = blockId ⟨0, 1, none⟩ ∧ e.2.kind = .terminal ∧ e.2.position = some ⟨2, 0, none⟩ := by
  refine ⟨organize_crossedRecords, ?_, ?_, ?_⟩
  · decide +kernel
  · decide +kernel
  · decide +kernel

end Assembly

end TokenForest
