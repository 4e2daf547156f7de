import TokenForest.Proofs.Assembly.Matching
import TokenForest.Proofs.Grid.Index

/-!
# What ends a block

A symbol that stands in a block without being its opener begins a later row of the lane and closes blocks, but not just those of
that opener: any closer of a block ends the innermost one, while a group is ended by its own closer only. So a block holds the
closer of its own opener wherever all blocks of the grammar have one closer, and with two kinds of blocks the closer of one kind may
end a block of the other (`mixed_blocks`).
-/

namespace TokenForest

namespace Assembly

variable {grammar : Grammar} {refused : Position → Bool} {decisions : List Decision} {grid : Grid} {lane : Lane}

/-! ## Where brackets come from -/

/-- The closer of blocks at the start of some symbols. -/
def closer? (grammar : Grammar) (items : List Admitted) : Option Position :=
  (items.head?.filter (fun item => grammar.closesBlock item.symbol.lexeme)).map (·.position)

/-- The openers that wait end rows, and those that have met a closer end rows above the one that begins with the closer. -/
structure Brackets.DrawnFrom (grammar : Grammar) (rows : List (Nat × List Admitted)) (b : Brackets) : Prop where
  waiting : ∀ q ∈ b.waiting, ∃ entry ∈ rows, opener? grammar entry.2 = some q
  pairs : ∀ e ∈ b.pairs, ∃ above entry below, rows = above ++ entry :: below ∧
    (∃ earlier ∈ above, opener? grammar earlier.2 = some e.1) ∧ closer? grammar entry.2 = some e.2

namespace Brackets

variable {b : Brackets} {rows rows' : List (Nat × List Admitted)} {items : List Admitted}

theorem drawnFrom_empty : empty.DrawnFrom grammar [] := ⟨by simp [empty], by simp [empty]⟩

/-- What is left of a row behind a closer has the opener of the row. -/
theorem opener?_of_close {q : Position} (h : opener? grammar (b.close grammar items).2 = some q) : opener? grammar items = some q := by
  obtain ⟨taken, htaken, _⟩ : ∃ taken : List Admitted, items = taken ++ (b.close grammar items).2 ∧ _ := close_perm b items
  have hne : (b.close grammar items).2 ≠ [] := by
    intro hnil
    rw [hnil] at h
    cases h
  rw [htaken, opener?, List.getLast?_append_of_ne_nil _ hne]
  exact h

/-- The start of a row takes openers away, and a pair that it adds is that of an opener that waited and the closer of the row. -/
theorem close_pairs (grammar : Grammar) (b : Brackets) (items : List Admitted) : (∀ q ∈ (b.close grammar items).1.waiting, q ∈ b.waiting) ∧
    ∀ e ∈ (b.close grammar items).1.pairs, e ∈ b.pairs ∨ e.1 ∈ b.waiting ∧ closer? grammar items = some e.2 := by
  cases items with
  | nil => exact ⟨fun q hq => hq, fun e he => Or.inl he⟩
  | cons first rest =>
    by_cases hcloses : grammar.closesBlock first.symbol.lexeme = true
    · cases hwaiting : b.waiting with
      | nil =>
        rw [close_of_waiting_nil hcloses hwaiting]
        exact ⟨fun q hq => hwaiting ▸ hq, fun e he => Or.inl he⟩
      | cons q outer =>
        rw [close_of_waiting_cons hcloses hwaiting]
        refine ⟨fun p hp => List.mem_cons_of_mem _ hp, ?_⟩
        intro e he
        rcases List.mem_append.1 he with he | he
        · exact Or.inl he
        · rw [List.mem_singleton.1 he]
          exact Or.inr ⟨by simp, by simp [closer?, hcloses]⟩
    · rw [close_of_not_closes (by simpa using hcloses)]
      exact ⟨fun q hq => hq, fun e he => Or.inl he⟩

/-- One more row. -/
theorem DrawnFrom.addRow (h : b.DrawnFrom grammar rows) (entry : Nat × List Admitted) :
    (b.addRow grammar refused entry.2).DrawnFrom grammar (rows ++ [entry]) := by
  obtain ⟨hwaiting, hpairs⟩ := close_pairs grammar b entry.2
  constructor
  · intro q hq
    rcases List.mem_append.1 hq with hq | hq
    · rw [Option.mem_toList, Option.filter_eq_some_iff] at hq
      exact ⟨entry, by simp, opener?_of_close hq.1⟩
    · obtain ⟨earlier, hearlier, hopener⟩ := h.waiting q (hwaiting q hq)
      exact ⟨earlier, List.mem_append_left _ hearlier, hopener⟩
  · intro e he
    rcases hpairs e he with he | ⟨hopener, hcloser⟩
    · obtain ⟨above, middle, below, rfl, hbefore, hcloser⟩ := h.pairs e he
      exact ⟨above, middle, below ++ [entry], by simp, hbefore, hcloser⟩
    · exact ⟨rows, entry, [], rfl, h.waiting e.1 hopener, hcloser⟩

/-- The brackets of some rows come from these rows. -/
theorem DrawnFrom.addRows (h : b.DrawnFrom grammar rows) :
    (b.addRows grammar refused rows').DrawnFrom grammar (rows ++ rows') := by
  induction rows' generalizing b rows with
  | nil =>
    rw [List.append_nil]
    exact h
  | cons entry rows' ih =>
    rw [addRows_cons, ← List.singleton_append, ← List.append_assoc]
    exact ih (h.addRow entry)

/-- An opener of some rows ends one of them. -/
theorem DrawnFrom.exists_opener (h : b.DrawnFrom grammar rows) {q : Position} (hq : q ∈ b.openers) :
    ∃ entry ∈ rows, opener? grammar entry.2 = some q := by
  rcases List.mem_append.1 hq with hq | hq
  · exact h.waiting q hq
  · obtain ⟨e, he, rfl⟩ := List.mem_map.1 hq
    obtain ⟨above, entry, below, rfl, ⟨earlier, hearlier, hopener⟩, _⟩ := h.pairs e he
    exact ⟨earlier, List.mem_append_left _ hearlier, hopener⟩

end Brackets

/-! ## Symbols that open and close blocks -/

/-- Where all blocks are closed alike, the closer of one block is that of every other one. -/
theorem lookup_of_closed_alike {opener closer : String} (hopens : grammar.opensBlock opener = true)
    (hcloses : grammar.closesBlock closer = true) (halike : ∀ e ∈ grammar.blockPairs, ∀ e' ∈ grammar.blockPairs, e.2 = e'.2) :
    grammar.blockPairs.lookup opener = some closer := by
  obtain ⟨e, he, hopener⟩ := List.any_eq_true.1 hopens
  obtain ⟨e', he', hcloser⟩ := List.any_eq_true.1 hcloses
  rw [beq_iff_eq] at hopener hcloser
  cases hlookup : grammar.blockPairs.lookup opener with
  | none =>
    rw [List.lookup_eq_none_iff] at hlookup
    exact absurd (hlookup e he) (by simp [hopener])
  | some found =>
    obtain ⟨front, back, hsplit, _⟩ := List.lookup_eq_some_iff.1 hlookup
    have hfound : (opener, found) ∈ grammar.blockPairs := by simp [hsplit]
    rw [← hcloser]
    exact congrArg some (halike _ hfound e' he')

/-- A row of a lane is the row of each of its symbols. -/
theorem rowOf_of_mem {entry : Nat × List Admitted} (hentry : entry ∈ admittedRows grid decisions lane) {item : Admitted}
    (hitem : item ∈ entry.2) : rowOf decisions grid item = entry.2 := by
  obtain ⟨hlane, hrow⟩ := place_of_mem_admittedRows hentry item hitem
  obtain ⟨row, _, rfl⟩ := List.mem_map.1 hentry
  rw [rowOf, hlane, hrow]

/-- The opener of a row of a lane is an admitted symbol that opens a block there. -/
theorem exists_opensBlock {entry : Nat × List Admitted} (hentry : entry ∈ admittedRows grid decisions lane) {q : Position}
    (h : opener? grammar entry.2 = some q) : ∃ opener ∈ entry.2, opener.position = q ∧ OpensBlock grammar decisions grid opener := by
  obtain ⟨opener, hopener, rfl⟩ := Option.map_eq_some_iff.1 h
  obtain ⟨hlast, hopens⟩ := Option.filter_eq_some_iff.1 hopener
  have hmem := List.mem_of_getLast? hlast
  refine ⟨opener, hmem, rfl, hopens, ?_⟩
  rw [rowOf_of_mem hentry hmem]
  exact hlast

/-- The symbol of a lane at a place is the admitted one. -/
theorem eq_of_mem_admittedSymbols {item other : Admitted} (h : item ∈ admittedSymbols decisions grid)
    (hother : other ∈ admittedSymbols decisions grid) (hposition : item.position = other.position) : item = other := by
  have hitem := (mem_admittedSymbols.1 h).2
  rw [hposition, (mem_admittedSymbols.1 hother).2] at hitem
  exact (Option.some.inj hitem).symm

/-- The rows of a lane come from top to bottom. -/
theorem pairwise_admittedRows (h : grid.positions.Pairwise Position.Before) (decisions : List Decision) (lane : Lane) :
    ((admittedRows grid decisions lane).map (·.1)).Pairwise (· < ·) := by
  have hnodup : ((admittedRows grid decisions lane).map (·.1)).Nodup := nodup_admittedRows lane
  rw [map_fst_admittedRows] at hnodup ⊢
  refine ((Grid.pairwise_rows h).and hnodup).imp ?_
  intro a b hab
  exact Nat.lt_of_le_of_ne hab.1 hab.2

/-- An opener and a closer that have met are admitted symbols, of which the second one ends the block of the first one. -/
theorem exists_endsBlock (h : grid.positions.Pairwise Position.Before) {b : Brackets}
    (hdrawn : b.DrawnFrom grammar (admittedRows grid decisions lane)) {q p : Position} (hpair : (q, p) ∈ b.pairs) :
    ∃ opener ∈ (admittedRows grid decisions lane).flatMap (·.2), ∃ closer ∈ (admittedRows grid decisions lane).flatMap (·.2),
      opener.position = q ∧ closer.position = p ∧ OpensBlock grammar decisions grid opener ∧
        EndsBlock grammar decisions grid opener closer := by
  obtain ⟨above, entry, below, hrows, ⟨earlier, hearlier, hopener⟩, hcloser⟩ := hdrawn.pairs _ hpair
  have hentry : entry ∈ admittedRows grid decisions lane := by simp [hrows]
  have hbefore : earlier ∈ admittedRows grid decisions lane := by simp [hrows, hearlier]
  obtain ⟨opener, hmem, rfl, hopens⟩ := exists_opensBlock hbefore hopener
  obtain ⟨closer, hfound, rfl⟩ := Option.map_eq_some_iff.1 hcloser
  obtain ⟨hfirst, hcloses⟩ := Option.filter_eq_some_iff.1 hfound
  have hmem' := List.mem_of_mem_head? hfirst
  obtain ⟨hlane, hrow⟩ := place_of_mem_admittedRows hbefore opener hmem
  obtain ⟨hlane', hrow'⟩ := place_of_mem_admittedRows hentry closer hmem'
  have hbelow : earlier.1 < entry.1 := by
    have hpairwise := pairwise_admittedRows h decisions lane
    rw [hrows, List.map_append, List.map_cons, List.pairwise_append] at hpairwise
    exact hpairwise.2.2 earlier.1 (List.mem_map_of_mem hearlier) entry.1 (by simp)
  refine ⟨opener, List.mem_flatMap.2 ⟨earlier, hbefore, hmem⟩, closer, List.mem_flatMap.2 ⟨entry, hentry, hmem'⟩, rfl, rfl,
    hopens, hcloses, ?_, hlane.trans hlane'.symm, ?_, lookup_of_closed_alike hopens.opens hcloses⟩
  · rw [rowOf_of_mem hentry hmem']
    exact hfirst
  · rw [hrow, hrow']
    exact hbelow

/-! ## The symbols in a block -/

/-- A symbol that stands in a block is the one that opened it, at the end of its row, or begins a later row of the lane and is a closer
of blocks, that of the opener where all blocks are closed alike. -/
theorem ofDecisions_endsBlocks {records : List TokenRecord} {staged : Bool} {reading : Grammar}
    (h : Grid.organize records staged reading = .ok grid) (decisions : List Decision) (grammar : Grammar) :
    ∀ r ∈ (ofDecisions decisions grid grammar).roots, ∀ e ∈ r.edges, e.1.label = "block" → e.2.kind = .terminal →
      ∃ opener ∈ admittedSymbols decisions grid, e.1.id = blockId opener.position ∧ e.1.position = some opener.position ∧
        OpensBlock grammar decisions grid opener ∧
        ∃ item ∈ admittedSymbols decisions grid, (∃ intent, e.2 = { terminalInfo item with intent }) ∧
          (item = opener ∨ EndsBlock grammar decisions grid opener item) := by
  intro r hr e he hlabel hkind
  obtain ⟨_, hplaced⟩ := ofDecisions_spec decisions grid grammar
  obtain ⟨_, _, hlinked⟩ := ofDecisions_follows decisions grid grammar
  obtain ⟨lane, hlane, t, hprune, ht⟩ := hlinked r hr
  obtain ⟨q, p, hid, hq, hp, hbracket⟩ := (ht.prune? bounded_ignoresConfidence hprune e he).2 hlabel hkind
  have hdrawn : (laneBrackets grammar decisions grid (ofDecisions decisions grid grammar).notes.mismatches lane).DrawnFrom grammar
      (admittedRows grid decisions lane) := Brackets.drawnFrom_empty.addRows
  have hsymbols : ∀ item ∈ (admittedRows grid decisions lane).flatMap (·.2), item ∈ admittedSymbols decisions grid :=
    fun item hitem => List.mem_flatMap.2 ⟨lane, hlane, hitem⟩
  -- the terminal was made of the admitted symbol at its position
  have hterminal : e.2 ∈ SyntaxTree.terminals (ofDecisions decisions grid grammar).roots :=
    SyntaxTree.mem_terminals.2 ⟨⟨r, hr, SyntaxTree.mem_infos_of_mem_edges he⟩, hkind⟩
  obtain ⟨item, hitem, intent, heq⟩ := hplaced.exists_item hterminal
  obtain rfl : item.position = p := by
    rw [heq] at hp
    exact Option.some.inj hp
  rcases hbracket with ⟨hsame, hopener⟩ | hpair
  · obtain ⟨entry, hentry, hopener⟩ := hdrawn.exists_opener hopener
    obtain ⟨opener, hmem, rfl, hopens⟩ := exists_opensBlock hentry hopener
    have hsymbol := hsymbols opener (List.mem_flatMap.2 ⟨entry, hentry, hmem⟩)
    exact ⟨opener, hsymbol, hid, hq, hopens, item, hitem, ⟨intent, heq⟩, Or.inl (eq_of_mem_admittedSymbols hitem hsymbol hsame)⟩
  · obtain ⟨opener, hopener, closer, hcloser, rfl, hposition, hopens, hends⟩ :=
      exists_endsBlock (Grid.pairwise_before h) hdrawn hpair
    obtain rfl := eq_of_mem_admittedSymbols hitem (hsymbols closer hcloser) hposition.symm
    exact ⟨opener, hsymbols opener hopener, hid, hq, hopens, item, hitem, ⟨intent, heq⟩, Or.inr hends⟩

/-! ## Two openers with one closer -/

/-- A grammar with two openers of blocks, which have the same closer. -/
def alikeGrammar : Grammar := { Grammar.default with blockPairs := [("\x7b", "\x7d"), ("<<", "\x7d")] }

/-- Two rows: a call opens a block with the second opener, and the closer follows. -/
def alikeRecords : List TokenRecord := [
  ⟨.terminal, "identifier", "foo", some 0, some 0, none, none, none, "", 1⟩,
  ⟨.delimiter, "delimiter", "<<", some 0, some 1, none, none, none, "", 1⟩,
  ⟨.closure, "closure", "\x7d", some 1, some 0, none, none, none, "", 1⟩]

/-- The grid of the two rows. -/
def alikeGrid : Grid where
  staged := false
  cells := [
    overtakenSymbol 1 .terminal "identifier" "foo" .identifier ⟨0, 0, none⟩,
    overtakenSymbol 2 .delimiter "delimiter" "<<" .delimiter ⟨0, 1, none⟩,
    overtakenSymbol 3 .closure "closure" "\x7d" .closure ⟨1, 0, none⟩]

/-- Every symbol of the two rows is accepted. -/
def alikeDecisions : List Decision :=
  alikeGrid.cells.map (fun cell => Decision.accept cell.1 cell.2 ⟨⟨1, 1, 1, 1, inUnit_full⟩, 1⟩ 0)

/-- The two rows have this grid, and the closer stands in the block of the second opener. -/
theorem closer_in_block_alike : Grid.organize alikeRecords alikeGrid.staged alikeGrammar = .ok alikeGrid ∧
    ∃ r ∈ (ofDecisions alikeDecisions alikeGrid alikeGrammar).roots, ∃ e ∈ r.edges, e.1.label = "block" ∧
      e.1.position = some ⟨0, 1, none⟩ ∧ e.2.kind = .terminal ∧ e.2.position = some ⟨1, 0, none⟩ :=
  ⟨Grid.organize_of_ordered (by decide +kernel) (by decide +kernel) (by decide +kernel), by decide +kernel⟩

/-- The closer in the block is that of its opener. -/
theorem ofDecisions_endsBlocks_alike : Grid.organize alikeRecords alikeGrid.staged alikeGrammar = .ok alikeGrid ∧
    ∃ r ∈ (ofDecisions alikeDecisions alikeGrid alikeGrammar).roots, ∃ e ∈ r.edges, e.1.label = "block" ∧ e.2.kind = .terminal ∧
      ∃ opener ∈ admittedSymbols alikeDecisions alikeGrid, ∃ item ∈ admittedSymbols alikeDecisions alikeGrid,
        e.1.id = blockId opener.position ∧ (∃ intent, e.2 = { terminalInfo item with intent }) ∧
        OpensBlock alikeGrammar alikeDecisions alikeGrid opener ∧ EndsBlock alikeGrammar alikeDecisions alikeGrid opener item ∧
        alikeGrammar.blockPairs.lookup opener.symbol.lexeme = some item.symbol.lexeme := by
  obtain ⟨horganize, r, hr, e, he, hlabel, hblock, hkind, hcloser⟩ := closer_in_block_alike
  obtain ⟨opener, hopener, hid, hplace, hopens, item, hitem, ⟨intent, hinfo⟩, hor⟩ :=
    ofDecisions_endsBlocks horganize alikeDecisions alikeGrammar r hr e he hlabel hkind
  have halike : ∀ e ∈ alikeGrammar.blockPairs, ∀ e' ∈ alikeGrammar.blockPairs, e.2 = e'.2 := by decide
  refine ⟨horganize, r, hr, e, he, hlabel, hkind, opener, hopener, item, hitem, hid, ⟨intent, hinfo⟩, hopens, ?_⟩
  rcases hor with rfl | hends
  · -- the opener stands in another row
    rw [hplace] at hblock
    rw [hinfo] at hcloser
    cases hblock.symm.trans hcloser
  · exact ⟨hends, hends.partner halike⟩

/-! ## Two kinds of blocks -/

/-- A grammar with two kinds of blocks. -/
def mixedGrammar : Grammar := { Grammar.default with blockPairs := [("\x7b", "\x7d"), ("<<", ">>")] }

/-- Three rows: a call opens a block of the first kind, and the closer of the other kind and its own follow. -/
def mixedRecords : List TokenRecord := [
  ⟨.terminal, "identifier", "foo", some 0, some 0, none, none, none, "", 1⟩,
  ⟨.delimiter, "delimiter", "\x7b", some 0, some 1, none, none, none, "", 1⟩,
  ⟨.closure, "closure", ">>", some 1, some 0, none, none, none, "", 1⟩,
  ⟨.closure, "closure", "\x7d", some 2, some 0, none, none, none, "", 1⟩]

/-- The grid of the three rows. -/
def mixedGrid : Grid where
  staged := false
  cells := [
    overtakenSymbol 1 .terminal "identifier" "foo" .identifier ⟨0, 0, none⟩,
    overtakenSymbol 2 .delimiter "delimiter" "\x7b" .delimiter ⟨0, 1, none⟩,
    overtakenSymbol 3 .closure "closure" ">>" .closure ⟨1, 0, none⟩,
    overtakenSymbol 4 .closure "closure" "\x7d" .closure ⟨2, 0, none⟩]

/-- Every symbol of the three rows is accepted. -/
def mixedDecisions : List Decision :=
  mixedGrid.cells.map (fun cell => Decision.accept cell.1 cell.2 ⟨⟨1, 1, 1, 1, inUnit_full⟩, 1⟩ 0)

/-- A closer of the other kind ends a block: it becomes the last symbol of the block, and the closer of the opener, which comes after
it, closes nothing. -/
theorem mixed_blocks : Grid.organize mixedRecords mixedGrid.staged mixedGrammar = .ok mixedGrid ∧
    mixedGrammar.blockPairs.lookup "\x7b" = some "\x7d" ∧
    (∃ r ∈ (ofDecisions mixedDecisions mixedGrid mixedGrammar).roots, ∃ e ∈ r.edges, e.1.id = blockId ⟨0, 1, none⟩ ∧
      e.2.position = some ⟨1, 0, none⟩ ∧ e.2.lexical = some (">>", "closure")) ∧
    strayWarnings (ofDecisions mixedDecisions mixedGrid mixedGrammar).notes = [strayText ⟨2, 0, none⟩] := by
  refine ⟨?_, rfl, ?_, ?_⟩
  · exact Grid.organize_of_ordered (by decide +kernel) (by decide +kernel) (by decide +kernel)
  · decide +kernel
  · decide +kernel

end Assembly

end TokenForest
