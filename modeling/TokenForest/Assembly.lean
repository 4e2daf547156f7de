import TokenForest.Decision
import TokenForest.Grid
import TokenForest.Intents
import TokenForest.SyntaxTree

/-!
# Assembling the forest

Each row of admitted symbols becomes a statement. An inline opener starts a group that runs to its closer or to the end of
the row; a block opener at the end of a row starts a block, which owns the statements of the following rows until a row
starts with a block closer. A node goes below another only through the intent gate, which may change its intent once.

The tree under construction is kept as a path: a node that is still open has its finished children with it, and the nodes
around it wait, innermost first, until it is closed.
-/

namespace TokenForest

/-- A node left out because its intent fits its parent in no way. -/
structure Mismatch where
  nodeId : String
  position : Option Position
  intent : Intent
  parentId : String
  parentIntent : Option Intent
  deriving DecidableEq, Repr

/-- What is noted while a forest is assembled: nodes left out, nodes whose intent was changed, and warnings. -/
structure Notes where
  mismatches : List Mismatch
  coerced : List String
  warnings : List String
  deriving DecidableEq, Repr

/-- The forest of a grid with the notes on it. -/
structure Assembly where
  roots : List SyntaxTree
  notes : Notes

/-- An admitted symbol: its position, the confidence it ends with, and its intent in the row. -/
structure Admitted where
  position : Position
  symbol : Symbol
  psi : Binary64
  intent : Intent
  deriving DecidableEq

/-- A node that is still open, with the children it has so far. -/
structure OpenNode where
  info : NodeInfo
  children : List SyntaxTree

/-- An open group and the lexeme that closes it. -/
structure OpenGroup where
  node : OpenNode
  closer : String

/-- An open block and the nodes around it up to its statement, innermost first. -/
structure OpenBlock where
  node : OpenNode
  path : List OpenNode

/-- A row under construction: its statement and the groups open in it, innermost first. -/
structure OpenRow where
  statement : OpenNode
  groups : List OpenGroup

/-- A lane under construction: its blocks that are open, innermost first, and the roots that are finished. -/
structure OpenLane where
  blocks : List OpenBlock
  roots : List SyntaxTree

namespace Notes

/-- Nothing noted. -/
def empty : Notes := ⟨[], [], []⟩

/-- One more warning. -/
def warn (n : Notes) (text : String) : Notes := { n with warnings := n.warnings ++ [text] }

/-- One more node left out. -/
def leaveOut (n : Notes) (m : Mismatch) : Notes := { n with mismatches := n.mismatches ++ [m] }

/-- One more node whose intent was changed. -/
def coerce (n : Notes) (id : String) : Notes := { n with coerced := n.coerced ++ [id] }

end Notes

namespace OpenNode

/-- The finished tree of a node. -/
def close (n : OpenNode) : SyntaxTree := .node n.info n.children

/-- The node with more children at the end. -/
def add (n : OpenNode) (trees : List SyntaxTree) : OpenNode := { n with children := n.children ++ trees }

/-- The tree of the outermost of some nodes, each one the last child of the next, around an inner tree. -/
def plug (path : List OpenNode) (inner : SyntaxTree) : SyntaxTree :=
  path.foldl (fun tree n => (n.add [tree]).close) inner

end OpenNode

namespace Assembly

/-! ## The gate -/

/-- A computation that takes notes. -/
abbrev Noting (α : Type) := StateM Notes α

/-- What an assembly is made with: notes are taken, and nodes are made. -/
class Building (m : Type → Type) where
  note : {α : Type} → Noting α → m α
  make : NodeInfo → m NodeInfo

/-- By itself an assembly makes nodes and does not keep a record of them. -/
@[default_instance]
instance : Building Noting where
  note x := x
  make info := pure info

open Building

/-- Puts a node below a parent, or among the roots: the node with the intent it is admitted with, or nothing. -/
def enter (grammar : Grammar) (parent : Option NodeInfo) (child : NodeInfo) : Noting (Option NodeInfo) := do
  let verdict := Intents.validate grammar (parent.map (·.intent)) child.intent
  match verdict.admitted with
  | none =>
    modify fun n => n.leaveOut
      ⟨child.id, child.position, child.intent, (parent.map (·.id)).getD "", parent.map (·.intent)⟩
    return none
  | some intent =>
    if verdict.coerced then modify fun n => n.coerce child.id
    return some { child with intent }

/-- The terminal of an admitted symbol. -/
def terminalInfo (item : Admitted) : NodeInfo where
  id := s!"t_{item.position.label}"
  kind := .terminal
  label := item.symbol.hint.name
  intent := item.intent
  confidence := item.psi
  position := some item.position
  symbol := some item.symbol

/-- A construct that starts at a position. -/
def constructInfo (id label : String) (intent : Intent) (p : Position) : NodeInfo where
  id := id
  kind := .nonterminal
  label := label
  intent := intent
  confidence := 1
  position := some p
  symbol := none

variable {m : Type → Type} [Monad m] [Building m]

/-- The terminal of a symbol below a parent: one tree, or none when it is left out. -/
def terminalUnder (grammar : Grammar) (parent : NodeInfo) (item : Admitted) : m (List SyntaxTree) := do
  let leaf ← make (terminalInfo item)
  let admitted ← note (enter grammar (some parent) leaf)
  return (admitted.map (fun info => SyntaxTree.node info [])).toList

/-! ## Rows -/

/-- The node that the next symbol goes to: the innermost open group, or the statement. -/
def parent (row : OpenRow) : NodeInfo :=
  match row.groups with
  | [] => row.statement.info
  | group :: _ => group.node.info

/-- The row with trees added to the node that is open. -/
def addTrees (row : OpenRow) (trees : List SyntaxTree) : OpenRow :=
  match row.groups with
  | [] => { row with statement := row.statement.add trees }
  | group :: rest => { row with groups := { group with node := group.node.add trees } :: rest }

/-- Opens a group at a symbol. The group of a call is a call, any other has the intent of the statement. -/
def startGroup (grammar : Grammar) (row : OpenRow) (previous : Intent) (item : Admitted) : m OpenRow := do
  let intent := if previous = .invoke then .invoke else row.statement.info.intent
  let group ← make (constructInfo s!"g_{item.position.label}" "group" intent item.position)
  match ← note (enter grammar (some (parent row)) group) with
  | none => return row
  | some info =>
    let first ← terminalUnder grammar info item
    return { row with groups := ⟨⟨info, first⟩, (grammar.closer? item.symbol.lexeme).getD ""⟩ :: row.groups }

/-- The row with the innermost group closed by a symbol. -/
def endGroup (grammar : Grammar) (row : OpenRow) (group : OpenGroup) (rest : List OpenGroup) (item : Admitted) :
    m OpenRow := do
  let last ← terminalUnder grammar group.node.info item
  return addTrees { row with groups := rest } [(group.node.add last).close]

/-- Adds a symbol to a row: it opens a group, closes the innermost one or is a terminal. -/
def addItem (grammar : Grammar) (row : OpenRow) (previous : Intent) (item : Admitted) : m OpenRow := do
  if grammar.opens item.symbol.lexeme then startGroup grammar row previous item
  else match row.groups with
    | group :: rest =>
      if item.symbol.lexeme = group.closer then endGroup grammar row group rest item
      else return addTrees row (← terminalUnder grammar (parent row) item)
    | [] => return addTrees row (← terminalUnder grammar (parent row) item)

/-- Opens a block at the last symbol of a row. -/
def startBlock (grammar : Grammar) (row : OpenRow) (item : Admitted) : m (Option OpenNode) := do
  let block ← make (constructInfo s!"b_{item.position.label}" "block" row.statement.info.intent item.position)
  match ← note (enter grammar (some (parent row)) block) with
  | none => return none
  | some info => return some ⟨info, ← terminalUnder grammar info item⟩

/-- Adds the symbols of a row; the last one may open a block. -/
def addItems (grammar : Grammar) (row : OpenRow) (previous : Intent) : List Admitted → m (OpenRow × Option OpenNode)
  | [] => return (row, none)
  | [item] => do
    if grammar.opensBlock item.symbol.lexeme then return (row, ← startBlock grammar row item)
    else return (← addItem grammar row previous item, none)
  | item :: rest => do
    let row ← addItem grammar row previous item
    addItems grammar row item.intent rest

/-- The nodes open in a row, innermost first, the statement last. -/
def openPath (row : OpenRow) : List OpenNode := row.groups.map (·.node) ++ [row.statement]

/-- The finished tree of some open nodes, innermost first. -/
def closePath : List OpenNode → Option SyntaxTree
  | [] => none
  | inner :: path => some (OpenNode.plug path inner.close)

/-! ## Lanes -/

/-- The block that statements go to. -/
def container (lane : OpenLane) : Option NodeInfo := lane.blocks.head?.map (·.node.info)

/-- The lane with finished statements in the innermost block, or among the roots. -/
def addStatements (lane : OpenLane) (trees : List SyntaxTree) : OpenLane :=
  match lane.blocks with
  | [] => { lane with roots := lane.roots ++ trees }
  | block :: rest => { lane with blocks := { block with node := block.node.add trees } :: rest }

/-- The finished statement of an open block. -/
def closeBlock (block : OpenBlock) : SyntaxTree := OpenNode.plug block.path block.node.close

/-- The symbols of a row with their intents in it. -/
def classified (grammar : Grammar) (items : List Admitted) : List Admitted :=
  items.mapFinIdx fun i item h =>
    { item with intent := Intents.intentIn grammar (items.map (·.symbol)) ⟨i, by rwa [List.length_map]⟩ }

/-- Takes a block closer at the start of a row: it ends the innermost block, or is warned about and stays. -/
def takeCloser (grammar : Grammar) (lane : OpenLane) (items : List Admitted) : m (OpenLane × List Admitted) := do
  match items with
  | [] => return (lane, [])
  | first :: rest =>
    if grammar.closesBlock first.symbol.lexeme then
      match lane.blocks with
      | [] =>
        note (modify fun n => n.warn s!"stray_block_closer:{first.position.label}")
        return (lane, items)
      | block :: outer =>
        let last ← terminalUnder grammar block.node.info { first with intent := .terminate }
        let closed := closeBlock { block with node := block.node.add last }
        return (addStatements { lane with blocks := outer } [closed], rest)
    else return (lane, items)

/-- The name of the statement of a row. -/
def statementId (lane : Lane) (row : Nat) : String :=
  match lane with
  | none => s!"s__{row}"
  | some l => s!"s_{l}_{row}"

/-- The position of the outermost open group of a row. -/
def unclosed? (row : OpenRow) : Option String :=
  row.groups.getLast?.bind (fun group => group.node.info.position.map (·.label))

/-- The lane with a row whose symbols have been added, when its statement is admitted. -/
def addRowTree (grammar : Grammar) (lane : OpenLane) (row : OpenRow) (block : Option OpenNode) : Noting OpenLane := do
  match ← enter grammar (container lane) row.statement.info with
  | none => return lane
  | some info =>
    let path := openPath { row with statement := { row.statement with info } }
    match block with
    | some node => return { lane with blocks := ⟨node, path⟩ :: lane.blocks }
    | none => return addStatements lane (closePath path).toList

/-- Adds a statement made of the symbols of a row. -/
def addStatement (grammar : Grammar) (laneId : Lane) (number : Nat) (lane : OpenLane) (items : List Admitted) :
    m OpenLane := do
  match items with
  | [] => return lane
  | first :: _ =>
    let intent := Intents.ofStatement (items.map (·.symbol))
    let statement ← make (constructInfo (statementId laneId number) "statement" intent first.position)
    let (row, block) ← addItems grammar ⟨⟨statement, []⟩, []⟩ intent (classified grammar items)
    match unclosed? row with
    | some label => note (modify fun n => n.warn s!"unclosed_group:{label}")
    | none => pure ()
    note (addRowTree grammar lane row block)

/-- Adds a row of admitted symbols to a lane. -/
def addRow (grammar : Grammar) (laneId : Lane) (lane : OpenLane) (entry : Nat × List Admitted) : m OpenLane := do
  let (lane, items) ← takeCloser grammar lane entry.2
  addStatement grammar laneId entry.1 lane items

/-- The roots of a lane, its open blocks closed where they stand. -/
def closeLane (lane : OpenLane) : List SyntaxTree :=
  lane.roots ++ (lane.blocks.foldl (fun inner b => some (closeBlock { b with node := b.node.add inner.toList }))
    (none : Option SyntaxTree)).toList

/-- The finished roots of a lane with these rows of admitted symbols. -/
def laneRoots (grammar : Grammar) (laneId : Lane) (rows : List (Nat × List Admitted)) : m (List SyntaxTree) := do
  let lane ← rows.foldlM (addRow grammar laneId) ⟨[], []⟩
  note (lane.blocks.reverse.forM fun b => modify fun n => n.warn s!"unclosed_block:{b.node.info.id}")
  return SyntaxTree.pruneAll (closeLane lane)

/-! ## Grids -/

/-- The latest decision on a position that admits a symbol, with the symbol. -/
def admitted? (decisions : List Decision) (p : Position) : Option (Decision × Symbol) :=
  (decisions.reverse.find? (fun d => decide (d.position = p) && d.status.isAdmitted)).bind
    (fun d => d.symbol.map (d, ·))

/-- The admitted symbols of a row. -/
def admittedRow (decisions : List Decision) (ps : List Position) : List Admitted :=
  ps.filterMap (fun p => (admitted? decisions p).map (fun e => ⟨p, e.2, e.1.finalPsi, .unresolved⟩))

/-- The rows of a lane with their admitted symbols. -/
def admittedRows (grid : Grid) (decisions : List Decision) (lane : Lane) : List (Nat × List Admitted) :=
  (grid.rows lane).map (fun row => (row, admittedRow decisions (grid.rowPositions lane row)))

/-- The finished roots of the admitted symbols of a grid, lane by lane. -/
def gridRoots (decisions : List Decision) (grid : Grid) (grammar : Grammar) : m (List SyntaxTree) := do
  let roots ← grid.lanes.mapM fun lane => laneRoots grammar lane (admittedRows grid decisions lane)
  return roots.flatten

/-- The forest of the admitted symbols of a grid. -/
def ofDecisions (decisions : List Decision) (grid : Grid) (grammar : Grammar) : Assembly :=
  let (roots, notes) := (gridRoots decisions grid grammar : Noting (List SyntaxTree)).run .empty
  ⟨roots, notes⟩

end Assembly

end TokenForest
