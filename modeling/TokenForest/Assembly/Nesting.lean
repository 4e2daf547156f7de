import TokenForest.Assembly.Brackets

/-!
# Nesting of groups

Trees that follow the brackets of a row: a terminal for a symbol that is no bracket, a group for a pair of brackets, and a block behind
the last symbol.
-/

namespace TokenForest

namespace Assembly

/-- The brackets among some lexemes are well nested, and each closer is that of its opener. -/
inductive WellNested (grammar : Grammar) : List String → Prop
  | nil : WellNested grammar []
  | plain {lexeme : String} {rest : List String} (hopens : grammar.opens lexeme = false) (hcloses : grammar.closes lexeme = false)
      (hrest : WellNested grammar rest) : WellNested grammar (lexeme :: rest)
  | pair {opener closer : String} {inner rest : List String} (hpair : grammar.closer? opener = some closer)
      (hinner : WellNested grammar inner) (hrest : WellNested grammar rest) :
      WellNested grammar (opener :: (inner ++ closer :: rest))

/-- The tree is the terminal of a symbol. -/
def IsLeaf (item : Admitted) (t : SyntaxTree) : Prop := ∃ intent, t = .node { terminalInfo item with intent } []

/-- The node is the group opened at a symbol. -/
structure IsGroup (opener : Admitted) (info : NodeInfo) : Prop where
  id : info.id = s!"g_{opener.position.label}"
  kind : info.kind = .nonterminal
  label : info.label = "group"
  position : info.position = some opener.position

/-- The trees stand for the symbols: a terminal for each symbol that is no bracket, and for each pair of brackets a group, which holds
the opener, what stands for the symbols between the two, and the closer. -/
inductive Grouped (grammar : Grammar) : List Admitted → List SyntaxTree → Prop
  | nil : Grouped grammar [] []
  | plain {item : Admitted} {items : List Admitted} {t : SyntaxTree} {ts : List SyntaxTree}
      (hopens : grammar.opens item.symbol.lexeme = false) (hcloses : grammar.closes item.symbol.lexeme = false)
      (hleaf : IsLeaf item t) (hrest : Grouped grammar items ts) : Grouped grammar (item :: items) (t :: ts)
  | pair {opener closer : Admitted} {inner items : List Admitted} {info : NodeInfo} {first last : SyntaxTree}
      {us ts : List SyntaxTree} (hpair : grammar.closer? opener.symbol.lexeme = some closer.symbol.lexeme)
      (hgroup : IsGroup opener info) (hfirst : IsLeaf opener first) (hlast : IsLeaf closer last)
      (hinner : Grouped grammar inner us) (hrest : Grouped grammar items ts) :
      Grouped grammar (opener :: (inner ++ closer :: items)) (.node info (first :: (us ++ [last])) :: ts)

/-- The node is a block. -/
def IsBlock (info : NodeInfo) : Prop := info.kind = .nonterminal ∧ info.label = "block"

/-- Where a row ends with an opener of blocks, a block begins with it; more may follow in the block. -/
inductive EndsWith : Option Admitted → List SyntaxTree → Prop
  | nothing : EndsWith none []
  | block {opener : Admitted} {info : NodeInfo} {first : SyntaxTree} {rest : List SyntaxTree} (hid : info.id = blockId opener.position)
      (hblock : IsBlock info) (hposition : info.position = some opener.position) (hfirst : IsLeaf opener first) :
      EndsWith (some opener) [.node info (first :: rest)]

/-- The tree is the statement of a row: its children are the grouped symbols of the row, and the block that the row ends with. -/
structure IsStatement (grammar : Grammar) (laneId : Lane) (number : Nat) (front : List Admitted) (last : Option Admitted)
    (t : SyntaxTree) : Prop where
  id : t.info.id = statementId laneId number
  kind : t.info.kind = .nonterminal
  label : t.info.label = "statement"
  children : ∃ ts us, t.children = ts ++ us ∧ Grouped grammar front ts ∧ EndsWith last us

/-- The brackets of a row are well nested, apart from an opener of blocks in last place. -/
structure RowNested (grammar : Grammar) (front : List Admitted) (last : Option Admitted) : Prop where
  nested : WellNested grammar (front.map (·.symbol.lexeme))
  opener : ∀ opener ∈ last, grammar.opensBlock opener.symbol.lexeme = true

/-- What is left of a row when a closer at its start has ended a block: the notes do not call it a stray. -/
inductive LeftOfRow (grammar : Grammar) (n : Notes) : List Admitted → List Admitted → Prop
  | whole {items : List Admitted} : LeftOfRow grammar n items items
  | closer {first : Admitted} {rest : List Admitted} (hcloses : grammar.closesBlock first.symbol.lexeme = true)
      (htaken : strayText first.position ∉ n.warnings) : LeftOfRow grammar n (first :: rest) rest

/-- The warning about a group that is open at the end of its row. -/
def groupText (p : Position) : String := s!"unclosed_group:{p.label}"

end Assembly

end TokenForest
