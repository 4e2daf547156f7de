import TokenForest.Assembly

/-!
# Brackets of blocks

Which openers and closers of blocks belong together, as the rows of a lane have them, and which symbols end which blocks.
-/

namespace TokenForest

namespace Assembly

/-! ## Refused openers -/

/-- The name of the block opened at a position. -/
def blockId (p : Position) : String := s!"b_{p.label}"

/-- A block opened at the position was left out. -/
def blockRefused (ms : List Mismatch) (p : Position) : Bool :=
  ms.any (fun m => decide (m.nodeId = blockId p ∧ m.position = some p))

/-- The statement of the row of the position was left out. -/
def statementRefused (ms : List Mismatch) (p : Position) : Bool :=
  ms.any (fun m => decide (m.nodeId = statementId p.lane p.row) &&
    m.position.any (fun q => decide (q.lane = p.lane ∧ q.row = p.row)))

/-- The opener at the position opens no block: the block, or the statement that it stands in, was left out. -/
def refused (ms : List Mismatch) (p : Position) : Bool := blockRefused ms p || statementRefused ms p

/-! ## Brackets of rows -/

/-- The block brackets of some rows: the openers that wait for their closers, innermost first, the openers and closers that have
met, and the closers that found no opener. -/
structure Brackets where
  waiting : List Position
  pairs : List (Position × Position)
  strays : List Position
  deriving DecidableEq, Repr

/-- The opener of a block at the end of some symbols. -/
def opener? (grammar : Grammar) (items : List Admitted) : Option Position :=
  (items.getLast?.filter (fun item => grammar.opensBlock item.symbol.lexeme)).map (·.position)

namespace Brackets

/-- No row yet. -/
def empty : Brackets := ⟨[], [], []⟩

/-- A closer at the start of a row meets the innermost opener, or is a stray; and the symbols that are left of the row. -/
def close (grammar : Grammar) (b : Brackets) (items : List Admitted) : Brackets × List Admitted :=
  match items with
  | [] => (b, [])
  | first :: rest =>
    if grammar.closesBlock first.symbol.lexeme then
      match b.waiting with
      | [] => ({ b with strays := b.strays ++ [first.position] }, items)
      | p :: outer => ({ b with waiting := outer, pairs := b.pairs ++ [(p, first.position)] }, rest)
    else (b, items)

/-- An opener waits for its closer, unless it is refused. -/
def await (refused : Position → Bool) (b : Brackets) (opener : Option Position) : Brackets :=
  { b with waiting := (opener.filter (fun p => !refused p)).toList ++ b.waiting }

/-- The brackets with those of one more row. -/
def addRow (grammar : Grammar) (refused : Position → Bool) (b : Brackets) (items : List Admitted) : Brackets :=
  let (closed, left) := b.close grammar items
  closed.await refused (opener? grammar left)

/-- The brackets with those of some more rows. -/
def addRows (grammar : Grammar) (refused : Position → Bool) (b : Brackets) (rows : List (Nat × List Admitted)) : Brackets :=
  rows.foldl (fun b entry => b.addRow grammar refused entry.2) b

/-- The brackets of some rows. -/
def ofRows (grammar : Grammar) (refused : Position → Bool) (rows : List (Nat × List Admitted)) : Brackets :=
  empty.addRows grammar refused rows

end Brackets

/-- The brackets of a lane, less the openers that the nodes left out refuse. -/
def laneBrackets (grammar : Grammar) (decisions : List Decision) (grid : Grid) (ms : List Mismatch) (lane : Lane) : Brackets :=
  Brackets.ofRows grammar (refused ms) (admittedRows grid decisions lane)

/-! ## Warnings about blocks -/

/-- The warning begins with these words. -/
def ofKind (kind : String) (warning : String) : Bool := kind.toList.isPrefixOf warning.toList

/-- The warnings about closers of blocks that close nothing. -/
def strayWarnings (n : Notes) : List String := n.warnings.filter (ofKind "stray_block_closer:")

/-- The warnings about blocks that nothing closes. -/
def unclosedWarnings (n : Notes) : List String := n.warnings.filter (ofKind "unclosed_block:")

/-- The warning about a closer that closes nothing. -/
def strayText (p : Position) : String := s!"stray_block_closer:{p.label}"

/-- The warning about a block that nothing closes. -/
def unclosedText (p : Position) : String := s!"unclosed_block:{blockId p}"

/-! ## Blocks of an assembly -/

/-- The blocks of an assembly are those of the brackets of its lanes, less the openers whose block or statement was left out. -/
structure BlocksMatch (grammar : Grammar) (decisions : List Decision) (grid : Grid) (a : Assembly) : Prop where
  /-- A closer is warned about exactly when it found no opener. -/
  strays : strayWarnings a.notes = grid.lanes.flatMap (fun lane =>
    (laneBrackets grammar decisions grid a.notes.mismatches lane).strays.map strayText)
  /-- A block is warned about exactly when its opener still waits. -/
  unclosed : unclosedWarnings a.notes = grid.lanes.flatMap (fun lane =>
    (laneBrackets grammar decisions grid a.notes.mismatches lane).waiting.reverse.map unclosedText)
  /-- A closer stands below no block but that of the opener that it met. -/
  closers : ∀ lane ∈ grid.lanes, ∀ q p, (q, p) ∈ (laneBrackets grammar decisions grid a.notes.mismatches lane).pairs →
    ∀ r ∈ a.roots, ∀ e ∈ r.edges, e.1.label = "block" → e.2.kind = .terminal → e.2.position = some p →
      e.1.id = blockId q ∧ e.1.position = some q
  /-- In a lane where no opener is refused the brackets are matched as they stand. -/
  plain : ∀ lane, (∀ p ∈ grid.lanePositions lane, refused a.notes.mismatches p = false) →
    laneBrackets grammar decisions grid a.notes.mismatches lane =
      Brackets.ofRows grammar (fun _ => false) (admittedRows grid decisions lane)

/-- The admitted symbols of the row of a symbol. -/
def rowOf (decisions : List Decision) (grid : Grid) (item : Admitted) : List Admitted :=
  admittedRow decisions (grid.rowPositions item.position.lane item.position.row)

/-- The symbol opens a block at the end of its row. -/
structure OpensBlock (grammar : Grammar) (decisions : List Decision) (grid : Grid) (opener : Admitted) : Prop where
  opens : grammar.opensBlock opener.symbol.lexeme = true
  last : (rowOf decisions grid opener).getLast? = some opener

/-- The symbol at the start of a row ends the block that another one opens. -/
structure EndsBlock (grammar : Grammar) (decisions : List Decision) (grid : Grid) (opener closer : Admitted) : Prop where
  closes : grammar.closesBlock closer.symbol.lexeme = true
  first : (rowOf decisions grid closer).head? = some closer
  lane : opener.position.lane = closer.position.lane
  below : opener.position.row < closer.position.row
  /-- The closer is that of the opener where all blocks are closed alike. -/
  partner : (∀ e ∈ grammar.blockPairs, ∀ e' ∈ grammar.blockPairs, e.2 = e'.2) →
    grammar.blockPairs.lookup opener.symbol.lexeme = some closer.symbol.lexeme

end Assembly

end TokenForest
