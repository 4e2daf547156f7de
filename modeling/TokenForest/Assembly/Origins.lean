import Mathlib.Data.List.Forall2
import TokenForest.Assembly
import TokenForest.Resolution

/-!
# Where nodes come from

Which decisions, rows and intents the nodes of an assembled forest come from, and what they have of them.
-/

namespace TokenForest

namespace Assembly

/-! ## Admitted symbols -/

/-- All admitted symbols of a grid, in the order in which they are assembled. -/
def admittedSymbols (decisions : List Decision) (grid : Grid) : List Admitted :=
  grid.lanes.flatMap (fun lane => (admittedRows grid decisions lane).flatMap (·.2))

/-- The decision is the latest one that admits a symbol at a position. -/
structure Latest (decisions : List Decision) (p : Position) (d : Decision) : Prop where
  position : d.position = p
  admitted : d.status.isAdmitted = true
  last : ∃ before after, decisions = before ++ d :: after ∧ ∀ e ∈ after, e.position = p → e.status.isAdmitted = false

/-- The terminal stands where the latest admitting decision is the given one, and has its final confidence. -/
structure DecidedBy (decisions : List Decision) (info : NodeInfo) (d : Decision) : Prop where
  position : info.position = some d.position
  latest : Latest decisions d.position d
  confidence : info.confidence = d.finalPsi

/-- The confidence of a node is the least of the final confidences that were decided on for the terminals it owns. -/
structure Aggregated (decisions : List Decision) (t : SyntaxTree) : Prop where
  /-- There is a terminal, and the confidence is the least final one, the first on a tie. -/
  least : ∃ first rest, List.Forall₂ (DecidedBy decisions) (SyntaxTree.terminals [t]) (first :: rest) ∧
    t.info.confidence = SyntaxTree.least first.finalPsi (rest.map (·.finalPsi))
  /-- No node below has a smaller one. -/
  bound : ∀ info ∈ t.infos, t.info.confidence ≤ info.confidence

/-! ## Names and permissions -/

/-- The names that the nodes for the symbol at a position may have: its terminal, the group or block opened at it, and the
statement of its row. -/
def namesAt (p : Position) : List String := [s!"t_{p.label}", s!"g_{p.label}", s!"b_{p.label}", statementId p.lane p.row]

/-- The parent may stand over the child. -/
def Permitted (grammar : Grammar) (parent child : NodeInfo) : Prop := grammar.permits (some parent.intent) child.intent = true

instance (grammar : Grammar) (parent child : NodeInfo) : Decidable (Permitted grammar parent child) :=
  inferInstanceAs (Decidable (grammar.permits (some parent.intent) child.intent = true))

/-- The intent of a row that has the statement of this name: that of its admitted symbols, perhaps without a closer in front. -/
def StatementIntent (decisions : List Decision) (grid : Grid) (id : String) (intent : Intent) : Prop :=
  ∃ lane row left, id = statementId lane row ∧ left <:+ admittedRow decisions (grid.rowPositions lane row) ∧ left ≠ [] ∧
    intent = Intents.ofStatement (left.map (·.symbol))

/-- The parent is a statement whose intent was changed, and the child is permitted below the intent that it had before.
`origin` says which intent a row gives to the statement of that name. -/
structure Overtaken (grammar : Grammar) (origin : String → Intent → Prop) (n : Notes) (parent child : NodeInfo) : Prop where
  statement : parent.label = "statement"
  coerced : parent.id ∈ n.coerced
  before : ∃ intent, origin parent.id intent ∧ parent.intent ∈ grammar.fallbacks intent ∧
    grammar.permits (some intent) child.intent = true

/-! ## Intents at the gate -/

/-- What is left of a row when a closer at its start may have ended a block. -/
def IsLeft (grammar : Grammar) (items left : List Admitted) : Prop :=
  left = items ∨ ∃ first, items = first :: left ∧ grammar.closesBlock first.symbol.lexeme = true

/-- The intents that a symbol of a row may go to the gate with: that in what is left of the row, and an end for a closer of blocks at
the start of the row. -/
inductive Offered (grammar : Grammar) (items : List Admitted) (p : Position) : Intent → Prop where
  | inRow {left : List Admitted} {item : Admitted} (hleft : IsLeft grammar items left) (hitem : item ∈ classified grammar left)
      (hp : item.position = p) : Offered grammar items p item.intent
  | closer {first : Admitted} {rest : List Admitted} (hitems : items = first :: rest)
      (hcloses : grammar.closesBlock first.symbol.lexeme = true) (hp : first.position = p) : Offered grammar items p .terminate

/-- The intents that the symbol at a position of a grid may go to the gate with, when these decisions have been made. -/
def OfferedAt (grammar : Grammar) (decisions : List Decision) (grid : Grid) (p : Position) (intent : Intent) : Prop :=
  Offered grammar (admittedRow decisions (grid.rowPositions p.lane p.row)) p intent

/-! ## Thresholds -/

/-- The row of a position is assembled as it was recorded but for the position itself: the other symbols are accepted, and the row does
not start with a closer of blocks. -/
structure Undisturbed (c : Context) (decisions : List Decision) (p : Position) : Prop where
  others : ∀ q ∈ c.grid.rowPositions p.lane p.row, q ≠ p → ∃ d ∈ decisions, d.position = q ∧ d.status = .accepted
  start : ∀ s ∈ (c.rowAt p).head?, c.grammar.closesBlock s.lexeme = false

/-- The hint of a symbol settles its intent, and the symbol closes no block. -/
def SettledByHint (grammar : Grammar) (s : Symbol) : Prop :=
  (∃ intent, (s.hint, intent) ∈ Intents.statementPriority) ∧ grammar.closesBlock s.lexeme = false

/-- What a terminal of the forest of some decisions is to the thresholds. It stands for a symbol at a position and reaches the
threshold of the intent that this symbol has in the recorded row. If its intent was not changed at the gate, it has an intent that its
symbol went there with, and where its row was assembled as recorded or its hint settles its intent, this is the one in the recorded
row, and the terminal reaches the threshold of its own intent. -/
structure MeetsThreshold (c : Context) (decisions : List Decision) (info : NodeInfo) (p : Position) (s : Symbol) : Prop where
  position : info.position = some p
  symbol : info.symbol = some s
  reached : c.config.threshold (c.intentAs p s) ≤ info.confidence
  offered : info.id ∉ (ofDecisions decisions c.grid c.grammar).notes.coerced → OfferedAt c.grammar decisions c.grid p info.intent
  own : info.id ∉ (ofDecisions decisions c.grid c.grammar).notes.coerced →
    Undisturbed c decisions p ∨ SettledByHint c.grammar s →
      info.intent = c.intentAs p s ∧ c.config.threshold info.intent ≤ info.confidence

end Assembly

end TokenForest
