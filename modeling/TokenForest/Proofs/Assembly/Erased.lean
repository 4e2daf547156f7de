import TokenForest.Proofs.Erasure
import TokenForest.Proofs.Grid.Erased
import TokenForest.Proofs.Intents
import TokenForest.Proofs.SyntaxTree.Erased

/-!
# Assembling erased symbols

Assembling reads the hints and lexemes of symbols. So erasing other parts of the symbols before a forest is assembled gives the trees
with these parts erased, and the same notes.
-/

namespace TokenForest

/-- An admitted symbol erased. -/
def Admitted.erase (f : Symbol → Symbol) (item : Admitted) : Admitted := { item with symbol := f item.symbol }

/-- An open node with its symbols erased. -/
def OpenNode.erase (f : Symbol → Symbol) (n : OpenNode) : OpenNode := ⟨n.info.erase f, n.children.map (SyntaxTree.erase f)⟩

/-- An open group with its symbols erased. -/
def OpenGroup.erase (f : Symbol → Symbol) (group : OpenGroup) : OpenGroup := { group with node := group.node.erase f }

/-- A row under construction with its symbols erased. -/
def OpenRow.erase (f : Symbol → Symbol) (row : OpenRow) : OpenRow := ⟨row.statement.erase f, row.groups.map (OpenGroup.erase f)⟩

/-- An open block with its symbols erased. -/
def OpenBlock.erase (f : Symbol → Symbol) (block : OpenBlock) : OpenBlock := ⟨block.node.erase f, block.path.map (OpenNode.erase f)⟩

/-- A lane under construction with its symbols erased. -/
def OpenLane.erase (f : Symbol → Symbol) (lane : OpenLane) : OpenLane :=
  ⟨lane.blocks.map (OpenBlock.erase f), lane.roots.map (SyntaxTree.erase f)⟩

/-- An assembly with the symbols of its trees erased. -/
def Assembly.erase (f : Symbol → Symbol) (assembly : Assembly) : Assembly := { assembly with roots := assembly.roots.map (SyntaxTree.erase f) }

namespace OpenNode

variable (f : Symbol → Symbol)

@[simp] theorem close_erase (n : OpenNode) : (n.erase f).close = n.close.erase f := by
  rw [close, close, SyntaxTree.erase_node]
  rfl

@[simp] theorem add_erase (n : OpenNode) (trees : List SyntaxTree) :
    (n.erase f).add (trees.map (SyntaxTree.erase f)) = (n.add trees).erase f := by
  simp [add, erase]

theorem plug_erase (path : List OpenNode) (inner : SyntaxTree) :
    plug (path.map (OpenNode.erase f)) (inner.erase f) = (plug path inner).erase f := by
  induction path generalizing inner with
  | nil => rfl
  | cons n path ih =>
    have hone : ((n.erase f).add [inner.erase f]).close = (n.add [inner]).close.erase f := by
      rw [← close_erase, ← add_erase]
      rfl
    change plug (path.map (OpenNode.erase f)) ((n.erase f).add [inner.erase f]).close = _
    rw [hone, ih]
    rfl

end OpenNode

namespace Assembly

variable {staging : Staging} (e : Erasure staging) (grammar : Grammar)

/-- A map on the result of a step moves through the step after it, when that one carries it on. -/
theorem bind_of_map {α β γ δ : Type} {x : Noting α} {x' : Noting β} {f : α → β} {g : γ → δ} {k : α → Noting γ} {k' : β → Noting δ}
    (hx : x' = f <$> x) (hk : ∀ a, k' (f a) = g <$> k a) : (x' >>= k') = g <$> (x >>= k) := by
  rw [hx, bind_map_left, map_bind]
  exact congrArg _ (funext hk)

/-- By itself an assembly goes on with a node that it makes, so a map that makes another node moves through the step after it. -/
theorem make_bind_of_map {β δ : Type} {info info' : NodeInfo} {g : β → δ} {k : NodeInfo → Noting β} {k' : NodeInfo → Noting δ}
    (h : k' info' = g <$> k info) : (Building.make info' >>= k') = g <$> (Building.make info >>= k) :=
  h

/-! ## The gate -/

theorem enter_erase (parent : Option NodeInfo) (child : NodeInfo) :
    enter grammar (parent.map (NodeInfo.erase e.erase)) (child.erase e.erase) =
      Option.map (NodeInfo.erase e.erase) <$> enter grammar parent child := by
  have hparent : (parent.map (NodeInfo.erase e.erase)).map (·.intent) = parent.map (·.intent) := Option.map_map _ _ _
  have hid : (parent.map (NodeInfo.erase e.erase)).map (·.id) = parent.map (·.id) := Option.map_map _ _ _
  have hchild : (child.erase e.erase).intent = child.intent := rfl
  unfold enter
  rw [hparent, hid, hchild]
  generalize Intents.validate grammar (parent.map (·.intent)) child.intent = verdict
  cases hadmitted : verdict.admitted with
  | none => simp only [hadmitted]; rfl
  | some intent =>
    simp only [hadmitted]
    split <;> rfl

theorem enter_construct_erase (parent : NodeInfo) (id label : String) (intent : Intent) (p : Position) :
    enter grammar (some (parent.erase e.erase)) (constructInfo id label intent p) =
      Option.map (NodeInfo.erase e.erase) <$> enter grammar (some parent) (constructInfo id label intent p) :=
  enter_erase e grammar (some parent) (constructInfo id label intent p)

theorem lexeme_erase (item : Admitted) : (item.erase e.erase).symbol.lexeme = item.symbol.lexeme := e.lexeme _

theorem terminalInfo_erase (item : Admitted) : terminalInfo (item.erase e.erase) = (terminalInfo item).erase e.erase := by
  simp [terminalInfo, Admitted.erase, NodeInfo.erase, e.hint]

theorem terminalUnder_erase (parent : NodeInfo) (item : Admitted) :
    terminalUnder grammar (parent.erase e.erase) (item.erase e.erase) =
      List.map (SyntaxTree.erase e.erase) <$> terminalUnder grammar parent item := by
  have henter := enter_erase e grammar (some parent) (terminalInfo item)
  rw [← terminalInfo_erase] at henter
  refine make_bind_of_map (bind_of_map henter fun admitted => ?_)
  cases admitted <;> simp

/-! ## Rows -/

theorem parent_erase (f : Symbol → Symbol) (row : OpenRow) : parent (row.erase f) = (parent row).erase f := by
  rcases row with ⟨statement, groups⟩
  cases groups <;> rfl

theorem addTrees_erase (f : Symbol → Symbol) (row : OpenRow) (trees : List SyntaxTree) :
    addTrees (row.erase f) (trees.map (SyntaxTree.erase f)) = (addTrees row trees).erase f := by
  rcases row with ⟨statement, groups⟩
  cases groups with
  | nil => simp [addTrees, OpenRow.erase]
  | cons group rest => simp [addTrees, OpenRow.erase, OpenGroup.erase]

theorem startGroup_erase (row : OpenRow) (previous : Intent) (item : Admitted) :
    startGroup grammar (row.erase e.erase) previous (item.erase e.erase) =
      OpenRow.erase e.erase <$> startGroup grammar row previous item := by
  unfold startGroup
  rw [parent_erase]
  refine make_bind_of_map (bind_of_map (enter_construct_erase e grammar (parent row) _ _ _ _) fun entered => ?_)
  cases entered with
  | none => rfl
  | some info =>
    refine bind_of_map (terminalUnder_erase e grammar info item) fun first => ?_
    simp only [map_pure, lexeme_erase]
    rfl

theorem endGroup_erase (row : OpenRow) (group : OpenGroup) (rest : List OpenGroup) (item : Admitted) :
    endGroup grammar (row.erase e.erase) (group.erase e.erase) (rest.map (OpenGroup.erase e.erase)) (item.erase e.erase) =
      OpenRow.erase e.erase <$> endGroup grammar row group rest item := by
  refine bind_of_map (terminalUnder_erase e grammar group.node.info item) fun last => ?_
  rw [map_pure, ← addTrees_erase, List.map_singleton, ← OpenNode.close_erase, ← OpenNode.add_erase]
  rfl

theorem addItem_erase (row : OpenRow) (previous : Intent) (item : Admitted) :
    addItem grammar (row.erase e.erase) previous (item.erase e.erase) = OpenRow.erase e.erase <$> addItem grammar row previous item := by
  have hterminal : (do return addTrees (row.erase e.erase) (← terminalUnder grammar (parent (row.erase e.erase)) (item.erase e.erase))) =
      OpenRow.erase e.erase <$> (do return addTrees row (← terminalUnder grammar (parent row) item) : Noting OpenRow) := by
    rw [parent_erase]
    refine bind_of_map (terminalUnder_erase e grammar (parent row) item) fun trees => ?_
    rw [map_pure, addTrees_erase]
  unfold addItem
  rw [lexeme_erase]
  split
  · exact startGroup_erase e grammar row previous item
  · cases hgroups : row.groups with
    | nil =>
      have herased : (row.erase e.erase).groups = [] := by rw [OpenRow.erase, hgroups, List.map_nil]
      simp only [herased]
      exact hterminal
    | cons group rest =>
      have herased : (row.erase e.erase).groups = group.erase e.erase :: rest.map (OpenGroup.erase e.erase) := by
        rw [OpenRow.erase, hgroups, List.map_cons]
      simp only [herased]
      change (if item.symbol.lexeme = group.closer then _ else _) = _
      split
      · exact endGroup_erase e grammar row group rest item
      · exact hterminal

theorem startBlock_erase (row : OpenRow) (item : Admitted) : startBlock grammar (row.erase e.erase) (item.erase e.erase) =
    Option.map (OpenNode.erase e.erase) <$> startBlock grammar row item := by
  unfold startBlock
  rw [parent_erase]
  refine make_bind_of_map (bind_of_map (enter_construct_erase e grammar (parent row) _ _ _ _) fun entered => ?_)
  cases entered with
  | none => rfl
  | some info =>
    refine bind_of_map (terminalUnder_erase e grammar info item) fun trees => ?_
    rw [map_pure]
    rfl

/-- The row and the block that adding symbols gives, erased. -/
def eraseAdded (f : Symbol → Symbol) (added : OpenRow × Option OpenNode) : OpenRow × Option OpenNode :=
  (added.1.erase f, added.2.map (OpenNode.erase f))

theorem addItems_erase (row : OpenRow) (previous : Intent) (items : List Admitted) :
    addItems grammar (row.erase e.erase) previous (items.map (Admitted.erase e.erase)) =
      eraseAdded e.erase <$> addItems grammar row previous items := by
  induction items generalizing row previous with
  | nil => rfl
  | cons item rest ih =>
    cases rest with
    | nil =>
      rw [List.map_singleton]
      unfold addItems
      rw [lexeme_erase]
      split
      · refine bind_of_map (startBlock_erase e grammar row item) fun block => ?_
        rw [map_pure]
        rfl
      · refine bind_of_map (addItem_erase e grammar row previous item) fun row => ?_
        rw [map_pure]
        rfl
    | cons next rest =>
      -- only the last symbol may open a block
      exact bind_of_map (addItem_erase e grammar row previous item) fun row => ih row item.intent

theorem openPath_erase (f : Symbol → Symbol) (row : OpenRow) : openPath (row.erase f) = (openPath row).map (OpenNode.erase f) := by
  simp [openPath, OpenRow.erase, OpenGroup.erase, Function.comp_def]

theorem closePath_erase (f : Symbol → Symbol) (path : List OpenNode) :
    closePath (path.map (OpenNode.erase f)) = (closePath path).map (SyntaxTree.erase f) := by
  cases path with
  | nil => rfl
  | cons inner path =>
    rw [List.map_cons, closePath, closePath, OpenNode.close_erase, OpenNode.plug_erase]
    rfl

/-! ## Lanes -/

theorem container_erase (f : Symbol → Symbol) (lane : OpenLane) : container (lane.erase f) = (container lane).map (NodeInfo.erase f) := by
  rcases lane with ⟨blocks, roots⟩
  cases blocks <;> rfl

theorem addStatements_erase (f : Symbol → Symbol) (lane : OpenLane) (trees : List SyntaxTree) :
    addStatements (lane.erase f) (trees.map (SyntaxTree.erase f)) = (addStatements lane trees).erase f := by
  rcases lane with ⟨blocks, roots⟩
  cases blocks with
  | nil => simp [addStatements, OpenLane.erase]
  | cons block rest => simp [addStatements, OpenLane.erase, OpenBlock.erase]

/-- A block is closed with its last trees. -/
theorem closeBlock_add_erase (f : Symbol → Symbol) (block : OpenBlock) (trees : List SyntaxTree) :
    closeBlock { block.erase f with node := (block.erase f).node.add (trees.map (SyntaxTree.erase f)) } =
      (closeBlock { block with node := block.node.add trees }).erase f := by
  unfold closeBlock
  rw [← OpenNode.plug_erase, ← OpenNode.close_erase, ← OpenNode.add_erase]
  rfl

theorem classified_erase (items : List Admitted) :
    classified grammar (items.map (Admitted.erase e.erase)) = (classified grammar items).map (Admitted.erase e.erase) := by
  have hsymbols : (items.map (Admitted.erase e.erase)).map (·.symbol) = (items.map (·.symbol)).map e.erase := by
    rw [List.map_map, List.map_map]
    rfl
  rw [classified_eq, classified_eq]
  apply List.ext_getElem?
  intro i
  simp only [hsymbols, e.classify_map, List.getElem?_map, List.getElem?_mapIdx]
  cases items[i]? <;> rfl

/-- The lane and the rest of a row behind its closer, erased. -/
def eraseTaken (f : Symbol → Symbol) (taken : OpenLane × List Admitted) : OpenLane × List Admitted :=
  (taken.1.erase f, taken.2.map (Admitted.erase f))

theorem takeCloser_erase (lane : OpenLane) (items : List Admitted) :
    takeCloser grammar (lane.erase e.erase) (items.map (Admitted.erase e.erase)) =
      eraseTaken e.erase <$> takeCloser grammar lane items := by
  cases items with
  | nil => rfl
  | cons first rest =>
    rw [List.map_cons]
    unfold takeCloser
    simp only [lexeme_erase]
    split
    · rcases lane with ⟨blocks, roots⟩
      cases blocks with
      | nil => rfl
      | cons block outer =>
        refine bind_of_map (terminalUnder_erase e grammar block.node.info { first with intent := .terminate }) fun last => ?_
        simp only [map_pure, eraseTaken]
        rw [← addStatements_erase, List.map_singleton, ← closeBlock_add_erase]
        rfl
    · rfl

theorem unclosed?_erase (f : Symbol → Symbol) (row : OpenRow) : unclosed? (row.erase f) = unclosed? row := by
  unfold unclosed? OpenRow.erase
  rw [List.getLast?_map]
  cases row.groups.getLast? <;> rfl

theorem addRowTree_erase (lane : OpenLane) (row : OpenRow) (block : Option OpenNode) :
    addRowTree grammar (lane.erase e.erase) (row.erase e.erase) (block.map (OpenNode.erase e.erase)) =
      OpenLane.erase e.erase <$> addRowTree grammar lane row block := by
  unfold addRowTree
  rw [container_erase]
  refine bind_of_map (enter_erase e grammar (container lane) row.statement.info) fun entered => ?_
  cases entered with
  | none => rfl
  | some info =>
    have hpath := openPath_erase e.erase { row with statement := { row.statement with info } }
    cases block with
    | some node => exact congrArg (fun path => (pure ⟨⟨node.erase e.erase, path⟩ :: _, _⟩ : Noting OpenLane)) hpath
    | none =>
      simp only [Option.map_none, Option.map_some, map_pure]
      rw [← addStatements_erase, ← Option.toList_map, ← closePath_erase, ← hpath]
      rfl

theorem addStatement_erase (laneId : Lane) (number : Nat) (lane : OpenLane) (items : List Admitted) :
    addStatement grammar laneId number (lane.erase e.erase) (items.map (Admitted.erase e.erase)) =
      OpenLane.erase e.erase <$> addStatement grammar laneId number lane items := by
  cases items with
  | nil => rfl
  | cons first rest =>
    have hintent : Intents.ofStatement (((first :: rest).map (Admitted.erase e.erase)).map (·.symbol)) =
        Intents.ofStatement ((first :: rest).map (·.symbol)) := by
      rw [← e.ofStatement_map ((first :: rest).map (·.symbol)), List.map_map, List.map_map]
      rfl
    rw [List.map_cons] at hintent ⊢
    unfold addStatement
    simp only
    rw [hintent, ← List.map_cons, classified_erase]
    generalize Intents.ofStatement ((first :: rest).map (·.symbol)) = intent
    let statement := constructInfo (statementId laneId number) "statement" intent first.position
    refine make_bind_of_map (bind_of_map (addItems_erase e grammar ⟨⟨statement, []⟩, []⟩ intent _) fun added => ?_)
    simp only [eraseAdded, unclosed?_erase]
    cases unclosed? added.1 with
    | none => exact addRowTree_erase e grammar lane added.1 added.2
    | some label => exact bind_of_map (f := id) (id_map _).symm fun _ => addRowTree_erase e grammar lane added.1 added.2

/-- The rows of a lane erased. -/
def eraseEntry (f : Symbol → Symbol) (entry : Nat × List Admitted) : Nat × List Admitted := (entry.1, entry.2.map (Admitted.erase f))

theorem addRow_erase (laneId : Lane) (lane : OpenLane) (entry : Nat × List Admitted) :
    addRow grammar laneId (lane.erase e.erase) (eraseEntry e.erase entry) = OpenLane.erase e.erase <$> addRow grammar laneId lane entry :=
  bind_of_map (takeCloser_erase e grammar lane entry.2) fun taken => addStatement_erase e grammar laneId entry.1 taken.1 taken.2

theorem closeLane_erase (f : Symbol → Symbol) (lane : OpenLane) : closeLane (lane.erase f) = (closeLane lane).map (SyntaxTree.erase f) := by
  have hblocks : ∀ (blocks : List OpenBlock) (inner : Option SyntaxTree),
      (blocks.map (OpenBlock.erase f)).foldl (fun inner b => some (closeBlock { b with node := b.node.add inner.toList }))
          (inner.map (SyntaxTree.erase f)) =
        (blocks.foldl (fun inner b => some (closeBlock { b with node := b.node.add inner.toList })) inner).map (SyntaxTree.erase f) := by
    intro blocks
    induction blocks with
    | nil => intro inner; rfl
    | cons block blocks ih =>
      intro inner
      rw [List.map_cons, List.foldl_cons, List.foldl_cons, Option.toList_map, closeBlock_add_erase]
      exact ih (some _)
  unfold closeLane
  rw [List.map_append, ← Option.toList_map, ← hblocks]
  rfl

theorem laneRoots_erase (laneId : Lane) (rows : List (Nat × List Admitted)) :
    laneRoots grammar laneId (rows.map (eraseEntry e.erase)) =
      List.map (SyntaxTree.erase e.erase) <$> laneRoots grammar laneId rows := by
  have hrows : ∀ lane : OpenLane, (rows.map (eraseEntry e.erase)).foldlM (addRow grammar laneId) (lane.erase e.erase) =
      OpenLane.erase e.erase <$> rows.foldlM (addRow grammar laneId) lane := by
    induction rows with
    | nil => intro lane; rfl
    | cons entry rows ih =>
      intro lane
      exact bind_of_map (addRow_erase e grammar laneId lane entry) fun lane => ih lane
  refine bind_of_map (hrows ⟨[], []⟩) fun lane => ?_
  have hwarned : (lane.erase e.erase).blocks.reverse.forM (fun b => (modify fun n => n.warn s!"unclosed_block:{b.node.info.id}" : Noting PUnit)) =
      lane.blocks.reverse.forM (fun b => modify fun n => n.warn s!"unclosed_block:{b.node.info.id}") := by
    change ((lane.blocks.map (OpenBlock.erase e.erase)).reverse.forM _) = _
    rw [← List.map_reverse, List.forM_eq_forM, List.forM_map]
    rfl
  rw [hwarned]
  refine bind_of_map (f := id) (id_map _).symm fun _ => ?_
  rw [map_pure, closeLane_erase, SyntaxTree.pruneAll_erase]

/-! ## Grids -/

theorem admitted?_erase (f : Symbol → Symbol) (decisions : List Decision) (p : Position) :
    admitted? (decisions.map (Decision.erase f)) p = (admitted? decisions p).map (fun d => (d.1.erase f, f d.2)) := by
  unfold admitted?
  rw [← List.map_reverse, List.find?_map, Option.bind_map, Option.map_bind]
  refine congrArg _ (funext fun d => ?_)
  change (d.symbol.map f).map _ = (d.symbol.map _).map _
  rw [Option.map_map, Option.map_map]
  rfl

theorem admittedRow_erase (f : Symbol → Symbol) (decisions : List Decision) (ps : List Position) :
    admittedRow (decisions.map (Decision.erase f)) ps = (admittedRow decisions ps).map (Admitted.erase f) := by
  unfold admittedRow
  rw [List.map_filterMap]
  refine List.filterMap_congr fun p _ => ?_
  rw [admitted?_erase, Option.map_map, Option.map_map]
  rfl

theorem admittedRows_erase (f : Symbol → Symbol) (grid : Grid) (decisions : List Decision) (lane : Lane) :
    admittedRows (grid.erase f) (decisions.map (Decision.erase f)) lane = (admittedRows grid decisions lane).map (eraseEntry f) := by
  unfold admittedRows
  simp only [Grid.rows_erase, Grid.rowPositions_erase, admittedRow_erase, List.map_map]
  rfl

/-- Decisions with erased symbols on an erased grid make the erased trees, and the same notes. -/
theorem ofDecisions_erase (decisions : List Decision) (grid : Grid) :
    ofDecisions (decisions.map (Decision.erase e.erase)) (grid.erase e.erase) grammar =
      (ofDecisions decisions grid grammar).erase e.erase := by
  have hlanes : ∀ lanes : List Lane, lanes.mapM (fun lane => laneRoots grammar lane
      (admittedRows (grid.erase e.erase) (decisions.map (Decision.erase e.erase)) lane)) =
      List.map (List.map (SyntaxTree.erase e.erase)) <$>
        lanes.mapM (fun lane => laneRoots grammar lane (admittedRows grid decisions lane)) := by
    intro lanes
    induction lanes with
    | nil => rfl
    | cons lane lanes ih =>
      rw [List.mapM_cons, List.mapM_cons, admittedRows_erase]
      refine bind_of_map (laneRoots_erase e grammar lane _) fun roots => ?_
      refine bind_of_map ih fun rest => ?_
      rw [map_pure, List.map_cons]
  have hroots : gridRoots (decisions.map (Decision.erase e.erase)) (grid.erase e.erase) grammar =
      List.map (SyntaxTree.erase e.erase) <$> (gridRoots decisions grid grammar : Noting (List SyntaxTree)) := by
    unfold gridRoots
    rw [Grid.lanes_erase]
    refine bind_of_map (hlanes grid.lanes) fun roots => ?_
    rw [map_pure, List.map_flatten]
  unfold ofDecisions
  rw [hroots]
  rfl

end Assembly

end TokenForest
