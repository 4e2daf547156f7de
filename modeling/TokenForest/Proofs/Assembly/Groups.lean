import TokenForest.Proofs.Assembly.Nesting
import TokenForest.Proofs.Assembly.Proceeding
import TokenForest.Proofs.Grid.Index

/-!
# The groups of a row

The groups of a statement are nested as the brackets of its row are: one group for each pair of brackets, in which the two brackets
stand around what they enclose, and no group stays open. What comes later changes nothing in it, since only the block at the end of a
row gets more children, and pruning finds a symbol in every group.
-/

namespace TokenForest

namespace Assembly

open SyntaxTree (Grown)

variable {grammar : Grammar} {n n' : Notes} {lane lane' : OpenLane} {item : Admitted} {items left front : List Admitted}
  {last : Option Admitted} {laneId : Lane} {number : Nat} {t u : SyntaxTree} {ts us : List SyntaxTree}

/-! ## Grouped trees later on -/

theorem IsLeaf.grown (h : IsLeaf item t) (hgrown : Grown IsBlock t u) : IsLeaf item u := by
  obtain ⟨intent, rfl⟩ := h
  exact ⟨intent, hgrown.of_leaf (by simp [IsBlock, terminalInfo])⟩

theorem IsLeaf.prune? (h : IsLeaf item t) : t.prune? = some t := by
  obtain ⟨intent, rfl⟩ := h
  exact SyntaxTree.prune?_of_terminal rfl []

/-- Grouped trees have no block in them, so they do not grow. -/
theorem Grouped.grown (h : Grouped grammar items ts) (hgrown : List.Forall₂ (Grown IsBlock) ts us) : Grouped grammar items us := by
  induction h generalizing us with
  | nil =>
    cases hgrown
    exact .nil
  | plain hopens hcloses hleaf _ ih =>
    cases hgrown with
    | cons hfirst hrest => exact .plain hopens hcloses (hleaf.grown hfirst) (ih hrest)
  | pair hpair hgroup hfirst hlast _ _ ihinner ihrest =>
    cases hgrown with
    | cons hnode hrest =>
      obtain ⟨children, rfl, hchildren⟩ := hnode.of_closed (by simp [IsBlock, hgroup.label])
      cases hchildren with
      | cons hfirst' hothers =>
        obtain ⟨inner, ends, rfl, hinner, hends⟩ := SyntaxTree.exists_of_forall₂_append hothers
        cases hends with
        | cons hlast' hnil =>
          cases hnil
          exact .pair hpair hgroup (hfirst.grown hfirst') (hlast.grown hlast') (ihinner hinner) (ihrest hrest)

/-- Pruning takes nothing away from grouped trees. -/
theorem Grouped.prune (h : Grouped grammar items ts) : Grouped grammar items (ts.filterMap SyntaxTree.prune?) := by
  induction h with
  | nil => exact .nil
  | plain hopens hcloses hleaf _ ih =>
    rw [List.filterMap_cons_some hleaf.prune?]
    exact .plain hopens hcloses hleaf ih
  | @pair opener closer inner items info first last us ts hpair hgroup hfirst hlast _ _ ihinner ihrest =>
    have hkept : (first :: (us ++ [last])).filterMap SyntaxTree.prune? = first :: (us.filterMap SyntaxTree.prune? ++ [last]) := by
      rw [List.filterMap_cons_some hfirst.prune?, List.filterMap_append, List.filterMap_cons_some hlast.prune?, List.filterMap_nil]
    rw [List.filterMap_cons_some (SyntaxTree.prune?_of_kept hgroup.kind hkept (by simp))]
    exact .pair hpair ⟨hgroup.id, hgroup.kind, hgroup.label, hgroup.position⟩ hfirst hlast ihinner ihrest

/-! ## Statements -/

theorem EndsWith.grown (h : EndsWith last ts) (hgrown : List.Forall₂ (Grown IsBlock) ts us) : EndsWith last us := by
  cases h with
  | nothing =>
    cases hgrown
    exact .nothing
  | block hid hblock hposition hfirst =>
    cases hgrown with
    | cons hnode hnil =>
      cases hnil
      cases hnode with
      | grow more hchildren _ =>
        cases hchildren with
        | cons hfirst' _ => exact .block hid hblock hposition (hfirst.grown hfirst')

theorem EndsWith.prune (h : EndsWith last ts) : EndsWith last (ts.filterMap SyntaxTree.prune?) := by
  cases h with
  | nothing => exact .nothing
  | @block opener info first rest hid hblock hposition hfirst =>
    rw [List.filterMap_cons_some (SyntaxTree.prune?_of_kept hblock.1 (List.filterMap_cons_some hfirst.prune?) (by simp))]
    exact .block hid hblock hposition hfirst

/-- A statement stays the statement of its row. -/
theorem IsStatement.grown (h : IsStatement grammar laneId number front last t) (hgrown : Grown IsBlock t u) :
    IsStatement grammar laneId number front last u := by
  obtain ⟨info, children⟩ := t
  obtain ⟨hid, hkind, hlabel, ts, us, hchildren, hgrouped, hends⟩ := h
  obtain ⟨children', rfl, hgrown'⟩ := hgrown.of_closed fun hblock => by
    have hboth := hblock.2.symm.trans hlabel
    simp at hboth
  obtain rfl : children = ts ++ us := hchildren
  obtain ⟨ts', us', rfl, hts, hus⟩ := SyntaxTree.exists_of_forall₂_append hgrown'
  exact ⟨hid, hkind, hlabel, ts', us', rfl, hgrouped.grown hts, hends.grown hus⟩

/-- Pruning leaves the statement of a row that has symbols. -/
theorem IsStatement.exists_prune? (h : IsStatement grammar laneId number front last t) (hne : front ++ last.toList ≠ []) :
    ∃ kept, t.prune? = some kept ∧ IsStatement grammar laneId number front last kept := by
  obtain ⟨info, children⟩ := t
  obtain ⟨hid, hkind, hlabel, ts, us, hchildren, hgrouped, hends⟩ := h
  obtain rfl : children = ts ++ us := hchildren
  have hgrouped' := hgrouped.prune
  have hends' := hends.prune
  have hleft : ts.filterMap SyntaxTree.prune? ++ us.filterMap SyntaxTree.prune? ≠ [] := by
    intro hnil
    obtain ⟨hts, hus⟩ := List.append_eq_nil_iff.1 hnil
    rw [hts] at hgrouped'
    rw [hus] at hends'
    cases hgrouped'
    cases hends'
    exact hne rfl
  exact ⟨_, SyntaxTree.prune?_of_kept hkind (List.filterMap_append ..) hleft, hid, hkind, hlabel, _, _, rfl, hgrouped', hends'⟩

/-! ## Rows -/

/-- An opener of blocks at the end of a row begins a block. -/
theorem addItems_opener {row row' : OpenRow} {previous : Intent} {block : Option OpenNode}
    (hopens : grammar.opensBlock item.symbol.lexeme = true)
    (h : (addItems grammar row previous [item]).run n = ((row', block), n')) (hkept : n'.mismatches = n.mismatches) :
    row' = row ∧ EndsWith (some item) (block.map OpenNode.close).toList := by
  rw [addItems, if_pos hopens] at h
  obtain ⟨opened, n₁, hrun, h⟩ := run_bind h
  cases h
  replace hrun := run_make hrun
  obtain ⟨r, n₂, henter, hrun⟩ := run_bind hrun
  have he := entered_of_run henter
  cases r with
  | none =>
    cases hrun
    obtain ⟨info, hinfo, _⟩ := he.exists_of_kept hkept
    cases hinfo
  | some info =>
    obtain ⟨ts, n₃, hterm, hrun⟩ := run_bind hrun
    cases hrun
    obtain ⟨hinfo, first, rfl, hfirst⟩ := he.begun_of_kept hterm hkept
    have hblock : info.id = blockId item.position ∧ IsBlock info ∧ info.position = some item.position := by
      rw [hinfo]
      exact ⟨rfl, ⟨rfl, rfl⟩, rfl⟩
    exact ⟨rfl, .block hblock.1 hblock.2.1 hblock.2.2 hfirst⟩

/-- The symbols of a row whose brackets are well nested are grouped in its statement, and no group stays open. -/
theorem addItems_statement (hroles : grammar.BracketsApart) (hrow : RowNested grammar front last) {statement : OpenNode}
    {previous : Intent} {row : OpenRow} {block : Option OpenNode}
    (h : (addItems grammar ⟨statement, []⟩ previous (front ++ last.toList)).run n = ((row, block), n'))
    (hkept : n'.mismatches = n.mismatches) : ∃ ts, Grouped grammar front ts ∧
      EndsWith last (block.map OpenNode.close).toList ∧ row = ⟨statement.add ts, []⟩ := by
  obtain ⟨ts, previous', n₁, hgrouped, hn₁, h⟩ := addItems_grouped hroles hrow.nested rfl (by simp [AwaitsBracket]) h hkept
  refine ⟨ts, hgrouped, ?_⟩
  cases last with
  | none =>
    cases h
    exact ⟨.nothing, rfl⟩
  | some opener =>
    obtain ⟨rfl, hends⟩ := addItems_opener (hrow.opener opener rfl) h (hkept.trans hn₁.symm)
    exact ⟨hends, rfl⟩

/-- The tree of a row in which no group is open. -/
theorem rowTrees_of_no_groups (statement : OpenNode) (block : Option OpenNode) :
    rowTrees ⟨statement, []⟩ block = [(statement.add (block.map OpenNode.close).toList).close] := by
  cases block with
  | none => simp [rowTrees, openPath, closePath, OpenNode.plug, OpenNode.add]
  | some node => simp [rowTrees, openPath, OpenNode.plug]

/-- Apart from their intents the symbols of a row are classified as they are. -/
theorem map_unclassified_classified (grammar : Grammar) (items : List Admitted) :
    (classified grammar items).map unclassified = items.map unclassified :=
  List.ext_getElem (by simp [classified]) fun i _ _ => by simp [classified, unclassified]

/-- A symbol of a row is admitted without an intent in the row. -/
theorem unclassified_of_mem_admittedRow {decisions : List Decision} {ps : List Position} (h : item ∈ admittedRow decisions ps) :
    unclassified item = item := by
  obtain ⟨p, _, hfound⟩ := List.mem_filterMap.1 h
  obtain ⟨e, _, rfl⟩ := Option.map_eq_some_iff.1 hfound
  rfl

/-- The block does not tell which intent its opener has in the row. -/
theorem EndsWith.unclassified (h : EndsWith last ts) : EndsWith (last.map unclassified) ts := by
  cases h with
  | nothing => exact .nothing
  | block hid hblock hposition hfirst => exact .block hid hblock hposition hfirst

theorem RowNested.of_unclassified (h : RowNested grammar (front.map unclassified) (last.map unclassified)) :
    RowNested grammar front last := by
  obtain ⟨hnested, hopener⟩ := h
  rw [List.map_map] at hnested
  exact ⟨hnested, fun opener hmem => hopener (unclassified opener) (Option.mem_map_of_mem unclassified hmem)⟩

/-- The symbols of a row are classified one by one. -/
theorem exists_classified_split (grammar : Grammar) (hfresh : ∀ item ∈ front ++ last.toList, unclassified item = item) :
    ∃ (front' : List Admitted) (last' : Option Admitted), classified grammar (front ++ last.toList) = front' ++ last'.toList ∧
      front'.map unclassified = front ∧ last'.map unclassified = last := by
  have hmap := map_unclassified_classified grammar (front ++ last.toList)
  rw [List.map_congr_left hfresh, List.map_id', List.map_eq_append_iff] at hmap
  obtain ⟨front', ends, hsplit, hfront, hends⟩ := hmap
  cases last with
  | none =>
    obtain rfl := List.map_eq_nil_iff.1 hends
    exact ⟨front', none, hsplit, hfront, rfl⟩
  | some opener =>
    obtain ⟨opener', rfl, hopener⟩ := List.map_eq_singleton_iff.1 hends
    exact ⟨front', some opener', hsplit, hfront, congrArg some hopener⟩

/-- The statement of a row whose brackets are well nested joins the lane, and no group is warned about. -/
theorem addStatement_grouped (hroles : grammar.BracketsApart) (hrow : RowNested grammar front last) (hne : front ++ last.toList ≠ [])
    (hfresh : ∀ item ∈ front ++ last.toList, unclassified item = item)
    (h : (addStatement grammar laneId number lane (front ++ last.toList)).run n = (lane', n'))
    (hkept : n'.mismatches = n.mismatches) : (∃ t, IsStatement grammar laneId number front last t ∧
      closeLane lane' = closeLane (addStatements lane [t])) ∧ NotedIn (fun _ => False) n n' := by
  cases hitems : front ++ last.toList with
  | nil => exact absurd hitems hne
  | cons first rest =>
    rw [hitems] at h
    obtain ⟨previous, row, block, n₁, n₂, hrun, hwarned, h⟩ := statement_of_run h
    have hadded := addItems_of_run hrun
    obtain ⟨r, he, rfl⟩ := joined_of_run h
    obtain ⟨hkept₁, hkept'⟩ := hadded.grows.kept (hwarned.grows.trans he.grows) hkept
    obtain ⟨info, rfl, hinfo⟩ := he.exists_of_kept (hwarned.grows.kept he.grows hkept').2
    -- the intents that the symbols have in the row change neither their lexemes nor the trees
    obtain ⟨front', last', hsplit, hfront, hends⟩ := exists_classified_split grammar hfresh
    rw [← hitems, hsplit] at hrun
    have hrow' : RowNested grammar front' last' := by
      rw [← hfront, ← hends] at hrow
      exact hrow.of_unclassified
    obtain ⟨ts, hgrouped, hblock, rfl⟩ := addItems_statement hroles hrow' hrun hkept₁
    have hgrouped' := hgrouped.unclassified
    have hblock' := hblock.unclassified
    rw [hfront] at hgrouped'
    rw [hends] at hblock'
    have hstatement : info.id = statementId laneId number ∧ info.kind = .nonterminal ∧ info.label = "statement" := by
      rw [hinfo]
      exact ⟨rfl, rfl, rfl⟩
    obtain ⟨hid, hkind, hlabel⟩ := hstatement
    refine ⟨⟨.node info (ts ++ (block.map OpenNode.close).toList), ⟨hid, hkind, hlabel, ts, _, rfl, hgrouped', hblock'⟩, ?_⟩, ?_⟩
    · rw [Option.map_some, Option.getD_some, closeLane_join, rowTrees_of_no_groups]
      rfl
    · exact (hadded.notedIn hwarned fun hopen => absurd rfl hopen).trans (he.notedIn _)

/-- What is left out of a statement stands in its row. -/
theorem addStatement_leftOutIn (h : (addStatement grammar laneId number lane items).run n = (lane', n')) :
    ∃ ms, n'.mismatches = n.mismatches ++ ms ∧ LeftOutIn items ms := by
  cases items with
  | nil =>
    cases h
    exact ⟨[], by simp, by simp [LeftOutIn]⟩
  | cons first rest =>
    obtain ⟨row, block, n₁, n₂, hadded, hwarned, h⟩ := rowAdded_of_run h
    obtain ⟨ms, hdone⟩ := hadded.done (unblocked_emptyRow laneId number first rest)
    obtain ⟨r, he, _⟩ := joined_of_run h
    obtain ⟨_, ms', hms', hsome, hnone⟩ := he.quiet
    refine ⟨ms ++ ms', ?_, ?_⟩
    · rw [hms', hwarned.mismatches, hdone.mismatches, List.append_assoc]
    · intro m hm
      rcases List.mem_append.1 hm with hm | hm
      · exact hdone.leftOutIn m hm
      · cases r with
        | some info => simp [hsome rfl] at hm
        | none =>
          obtain ⟨m', rfl, _, hposition⟩ := hnone rfl
          rw [hdone.statement] at hposition
          exact ⟨first, by simp, by rw [List.mem_singleton.1 hm, hposition]; rfl⟩

/-! ## Rows behind a closer -/

theorem LeftOfRow.mem (h : LeftOfRow grammar n items left) : ∀ item ∈ left, item ∈ items := by
  cases h with
  | whole => exact fun item hitem => hitem
  | closer => exact fun item hitem => List.mem_cons_of_mem _ hitem

/-- A row whose brackets are well nested does not begin with a closer. -/
theorem RowNested.head (hroles : grammar.BracketsApart) (hrow : RowNested grammar front last) :
    ∀ first ∈ (front ++ last.toList).head?, grammar.closes first.symbol.lexeme = false := by
  intro first hfirst
  cases front with
  | nil =>
    apply hroles
    rw [Grammar.opens, hrow.opener first (by simpa using hfirst), Bool.or_true]
  | cons item others =>
    obtain rfl := Option.some.inj hfirst
    exact hrow.nested.head hroles item.symbol.lexeme rfl

/-- The symbols that the statement of a row is made of can be told from the notes at the end, when they do not begin with a closer. -/
theorem CloserTaken.left_eq (h : CloserTaken grammar lane n items lane' left n') {kept : List Admitted} {n'' : Notes}
    (hkept : LeftOfRow grammar n'' items kept) (hhead : ∀ first ∈ kept.head?, grammar.closes first.symbol.lexeme = false)
    (hwarnings : ∀ w ∈ n'.warnings, w ∈ n''.warnings) : left = kept := by
  cases h with
  | nil =>
    cases hkept
    rfl
  | passed hcloses =>
    cases hkept with
    | whole => rfl
    | closer hcloser =>
      rw [hcloses] at hcloser
      cases hcloser
  | @stray _ _ first _ =>
    have hstray : strayText first.position ∈ (n.warn (strayText first.position)).warnings := by simp [Notes.warn]
    cases hkept with
    | whole => rfl
    | closer _ htaken => exact absurd (hwarnings _ hstray) htaken
  | @closed _ _ _ _ _ _ first _ hcloses =>
    cases hkept with
    | whole =>
      have hnot := hhead first rfl
      rw [Grammar.closes, hcloses, Bool.or_true] at hnot
      cases hnot
    | closer => rfl

/-- A row whose brackets are well nested, in a run that leaves nothing of it out. -/
theorem addRow_grouped {entry : Nat × List Admitted} (hroles : grammar.BracketsApart) (hrow : RowNested grammar front last)
    (hne : front ++ last.toList ≠ []) (hfresh : ∀ item ∈ front ++ last.toList, unclassified item = item) {n'' : Notes}
    {P : Position → Prop} (hlater : NotedIn P n' n'') (hleft : LeftOfRow grammar n'' entry.2 (front ++ last.toList))
    (hkept : ∀ m ∈ n''.mismatches, ∀ item ∈ front ++ last.toList, m.position ≠ some item.position)
    (h : (addRow grammar laneId lane entry).run n = (lane', n')) :
    (∃ t, IsStatement grammar laneId entry.1 front last t ∧ ∃ r ∈ closeLane lane', t ∈ r.subtrees) ∧
      NotedIn (fun _ => False) n n' := by
  obtain ⟨⟨lane₁, left⟩, n₁, hrun, h⟩ := run_bind h
  have htaken := closerTaken_of_run hrun
  have hwarnings : ∀ w ∈ n₁.warnings, w ∈ n''.warnings := fun w hw =>
    hlater.subset_warnings w ((addStatement_notedIn (P := fun _ => True) (by simp) h).subset_warnings w hw)
  obtain rfl := htaken.left_eq hleft (hrow.head hroles) hwarnings
  obtain ⟨ms, hms, hlocated⟩ := addStatement_leftOutIn h
  obtain rfl : ms = [] := by
    rw [List.eq_nil_iff_forall_not_mem]
    intro m hm
    obtain ⟨item, hitem, hposition⟩ := hlocated m hm
    exact hkept m (hlater.mismatches.subset (by simp [hms, hm])) item hitem hposition
  rw [List.append_nil] at hms
  obtain ⟨⟨t, ht, hclosed⟩, hnoted⟩ := addStatement_grouped hroles hrow hne hfresh h hms
  refine ⟨⟨t, ht, ?_⟩, (htaken.notedIn _).trans hnoted⟩
  rw [hclosed]
  exact exists_mem_closeLane (List.mem_singleton_self t) lane₁

/-! ## Rows of a grid -/

/-- The groups of a row are nested as its brackets are. Of a row, or of what a closer at its start leaves of it, let the brackets be
well nested, apart from an opener of blocks in last place, and let no node at its symbols be left out. Then among the roots stands the
statement of the row, with one group for each pair of brackets, and no group of the row is warned about. -/
theorem ofDecisions_grouped (decisions : List Decision) (grid : Grid) (hroles : grammar.BracketsApart) {lane : Lane} {row : Nat}
    (hrow : RowNested grammar front last) (hne : front ++ last.toList ≠ [])
    (hleft : LeftOfRow grammar (ofDecisions decisions grid grammar).notes (admittedRow decisions (grid.rowPositions lane row))
      (front ++ last.toList))
    (hkept : ∀ m ∈ (ofDecisions decisions grid grammar).notes.mismatches, ∀ item ∈ front ++ last.toList,
      m.position ≠ some item.position) :
    (∃ r ∈ (ofDecisions decisions grid grammar).roots, ∃ t ∈ r.subtrees, IsStatement grammar lane row front last t) ∧
      ∀ item ∈ admittedRow decisions (grid.rowPositions lane row),
        groupText item.position ∉ (ofDecisions decisions grid grammar).notes.warnings := by
  obtain ⟨hlane, hentry⟩ : lane ∈ grid.lanes ∧
      (row, admittedRow decisions (grid.rowPositions lane row)) ∈ admittedRows grid decisions lane := by
    obtain ⟨item, hitem⟩ := List.exists_mem_of_ne_nil _ hne
    obtain ⟨hmem, hplace⟩ := Grid.mem_rowPositions.1 (position_of_mem_admittedRow (hleft.mem item hitem))
    have hnumber : row ∈ grid.rows lane := Grid.mem_rows.2 ⟨_, hmem, hplace⟩
    exact ⟨Grid.mem_lanes.2 ⟨_, hmem, hplace.1⟩, List.mem_map_of_mem hnumber⟩
  obtain ⟨before, run, behind, finished⟩ := ofDecisions_addedWithin decisions grid grammar hlane hentry
  have hfresh : ∀ item ∈ front ++ last.toList, unclassified item = item := fun item hitem =>
    unclassified_of_mem_admittedRow (hleft.mem item hitem)
  obtain ⟨⟨t, ht, r, hr, hmem⟩, hnoted⟩ := addRow_grouped hroles hrow hne hfresh behind hleft hkept run
  constructor
  · obtain ⟨t', hgrown, hkept'⟩ := finished r hr t hmem
    obtain ⟨kept, hprune, hstatement⟩ := (ht.grown hgrown).exists_prune? hne
    obtain ⟨root, hroot, hsub⟩ := hkept' kept hprune
    exact ⟨root, hroot, kept, hsub, hstatement⟩
  · intro item hitem hwarned
    have hall := (before.trans (hnoted.mono fun _ => False.elim)).trans behind
    rcases hall.mem_or_of_groupText hwarned with hempty | helsewhere
    · simp [Notes.empty] at hempty
    · exact helsewhere (place_of_mem_admittedRows hentry item hitem)

/-! ## A row with nested brackets -/

/-- The closer of a block, at the start of the second of three rows. -/
def nestedCloser : Position × Symbol := overtakenSymbol 3 .closure "closure" "\x7d" .closure ⟨1, 0, none⟩

/-- What stands between it and the end of the row: brackets in brackets. -/
def nestedCells : List (Position × Symbol) := [
  overtakenSymbol 4 .terminal "keyword.control" "if" .controlKeyword ⟨1, 1, none⟩,
  overtakenSymbol 5 .delimiter "delimiter" "(" .delimiter ⟨1, 2, none⟩,
  overtakenSymbol 6 .terminal "identifier" "a" .identifier ⟨1, 3, none⟩,
  overtakenSymbol 7 .delimiter "delimiter" "[" .delimiter ⟨1, 4, none⟩,
  overtakenSymbol 8 .terminal "identifier" "b" .identifier ⟨1, 5, none⟩,
  overtakenSymbol 9 .closure "closure" "]" .closure ⟨1, 6, none⟩,
  overtakenSymbol 10 .closure "closure" ")" .closure ⟨1, 7, none⟩]

/-- The opener of another block at the end of the row. -/
def nestedOpener : Position × Symbol := overtakenSymbol 11 .delimiter "delimiter" "\x7b" .delimiter ⟨1, 8, none⟩

/-- The three rows: the first one opens the block that the second one closes, and the third one stands in the other block. -/
def nestedGrid : Grid where
  staged := false
  cells := [
    overtakenSymbol 1 .terminal "keyword.control" "if" .controlKeyword ⟨0, 0, none⟩,
    overtakenSymbol 2 .delimiter "delimiter" "\x7b" .delimiter ⟨0, 1, none⟩] ++ nestedCloser :: nestedCells ++ [nestedOpener,
    overtakenSymbol 12 .terminal "identifier" "c" .identifier ⟨2, 0, none⟩]

/-- Every symbol of the three rows is accepted. -/
def nestedDecisions : List Decision :=
  nestedGrid.cells.map (fun cell => Decision.accept cell.1 cell.2 ⟨⟨1, 1, 1, 1, inUnit_full⟩, 1⟩ 0)

/-- A symbol of the three rows as it is admitted. -/
def nestedItem (cell : Position × Symbol) : Admitted := ⟨cell.1, cell.2, 1, .unresolved⟩

theorem bracketsApart_default : Grammar.default.BracketsApart := by
  intro lexeme h
  simp only [Grammar.opens, Grammar.opensGroup, Grammar.opensBlock, Grammar.default, List.any_cons, List.any_nil, Bool.or_false,
    Bool.or_eq_true, beq_iff_eq] at h
  rcases h with (rfl | rfl) | rfl <;> decide

theorem rowNested_nestedCells : RowNested .default (nestedCells.map nestedItem) (some (nestedItem nestedOpener)) := by
  refine ⟨?_, fun opener hopener => ?_⟩
  · have hindex : WellNested .default ("[" :: (["b"] ++ "]" :: [])) := .pair rfl (.plain rfl rfl .nil) .nil
    have hcondition : WellNested .default ("(" :: (["a", "[", "b", "]"] ++ ")" :: [])) := .pair rfl (.plain rfl rfl hindex) .nil
    exact .plain rfl rfl hcondition
  · obtain rfl := Option.some.inj hopener
    rfl

/-- The second of the three rows has one group in the other, and a block at its end. -/
theorem ofDecisions_grouped_nested : Grammar.default.BracketsApart ∧
    RowNested .default (nestedCells.map nestedItem) (some (nestedItem nestedOpener)) ∧
    admittedRow nestedDecisions (nestedGrid.rowPositions none 1) =
      nestedItem nestedCloser :: (nestedCells.map nestedItem ++ [nestedItem nestedOpener]) ∧
    strayText ⟨1, 0, none⟩ ∉ (ofDecisions nestedDecisions nestedGrid .default).notes.warnings ∧
    (ofDecisions nestedDecisions nestedGrid .default).notes.mismatches = [] ∧
    (∃ r ∈ (ofDecisions nestedDecisions nestedGrid .default).roots, ∃ t ∈ r.subtrees,
      IsStatement .default none 1 (nestedCells.map nestedItem) (some (nestedItem nestedOpener)) t) ∧
    ∀ item ∈ admittedRow nestedDecisions (nestedGrid.rowPositions none 1),
      groupText item.position ∉ (ofDecisions nestedDecisions nestedGrid .default).notes.warnings := by
  have hrow : admittedRow nestedDecisions (nestedGrid.rowPositions none 1) =
      nestedItem nestedCloser :: (nestedCells.map nestedItem ++ [nestedItem nestedOpener]) := by decide +kernel
  have hnotes : strayText ⟨1, 0, none⟩ ∉ (ofDecisions nestedDecisions nestedGrid .default).notes.warnings ∧
      (ofDecisions nestedDecisions nestedGrid .default).notes.mismatches = [] := by decide +kernel
  refine ⟨bracketsApart_default, rowNested_nestedCells, hrow, hnotes.1, hnotes.2, ?_⟩
  apply ofDecisions_grouped nestedDecisions nestedGrid bracketsApart_default rowNested_nestedCells
  · simp
  · rw [hrow]
    exact .closer rfl hnotes.1
  · rw [hnotes.2]
    simp

end Assembly

end TokenForest
