import TokenForest.Binary64
import TokenForest.Position
import TokenForest.Symbol

/-!
# Syntax trees

What the nodes of a syntax forest say, and trees of them. The confidence of an inner node is the least confidence of its
children.
-/

namespace TokenForest

/-- Whether a node stands for a symbol or for a construct made of other nodes. -/
inductive NodeKind where
  | terminal
  | nonterminal
  | other (name : String)
  deriving DecidableEq, Repr

namespace NodeKind

/-- The kind with this name. -/
def ofName (name : String) : NodeKind :=
  match name with
  | "terminal" => terminal
  | "nonterminal" => nonterminal
  | _ => other name

/-- The name of a kind. -/
def name : NodeKind → String
  | terminal => "terminal"
  | nonterminal => "nonterminal"
  | other name => name

end NodeKind

/-- What a node says by itself. Its position is that of its symbol, or the first position that it covers. -/
structure NodeInfo where
  id : String
  kind : NodeKind
  label : String
  intent : Intent
  confidence : Binary64
  position : Option Position
  symbol : Option Symbol
  deriving DecidableEq, Repr

instance : Inhabited NodeInfo := ⟨⟨"", .nonterminal, "", .unresolved, 0, none, none⟩⟩

namespace NodeInfo

/-- A number behind every ordinary row and column. -/
def lastPlace : Int := 1073741824

/-- The place of a node in source order; a node without a position comes behind every ordinary one. -/
def orderKey (n : NodeInfo) : Int × Int × Int :=
  match n.position with
  | some p => p.orderKey
  | none => (lastPlace, lastPlace, lastPlace)

/-- The lexeme and the tag of the symbol of a node. -/
def lexical (n : NodeInfo) : Option (String × String) := n.symbol.map (fun s => (s.lexeme, s.typeTag))

end NodeInfo

/-- A tree of nodes. -/
inductive SyntaxTree where
  | node (info : NodeInfo) (children : List SyntaxTree)

namespace SyntaxTree

/-- What the root says. -/
def info : SyntaxTree → NodeInfo
  | node info _ => info

/-- The subtrees below the root. -/
def children : SyntaxTree → List SyntaxTree
  | node _ children => children

mutual

/-- The number of nodes of a tree. -/
def size : SyntaxTree → Nat
  | node _ children => 1 + sizes children

/-- The number of nodes of some trees. -/
def sizes : List SyntaxTree → Nat
  | [] => 0
  | t :: rest => size t + sizes rest

end

/-- The least of some confidences, the first one on a tie. -/
def least (first : Binary64) (rest : List Binary64) : Binary64 := rest.foldl Binary64.min first

/-- The confidence of an inner node over children with these confidences; its own one over none. -/
def aggregate (own : Binary64) : List Binary64 → Binary64
  | [] => own
  | first :: rest => (least first rest).roundSix

mutual

/-- The tree without inner nodes that own nothing, every inner confidence aggregated from below. -/
def prune? : SyntaxTree → Option SyntaxTree
  | node info children =>
    if info.kind = .terminal then some (node info children)
    else match pruneAll children with
      | [] => none
      | kept =>
        some (node { info with confidence := aggregate info.confidence (kept.map (fun t => t.info.confidence)) } kept)

/-- What is left of some trees. -/
def pruneAll : List SyntaxTree → List SyntaxTree
  | [] => []
  | t :: rest =>
    match prune? t with
    | some kept => kept :: pruneAll rest
    | none => pruneAll rest

end

/-! ## What the nodes of trees say -/

mutual

/-- What the nodes of a tree say, in pre-order. -/
def infos : SyntaxTree → List NodeInfo
  | node info children => info :: allInfos children

/-- What the nodes of some trees say, in pre-order. -/
def allInfos : List SyntaxTree → List NodeInfo
  | [] => []
  | t :: rest => infos t ++ allInfos rest

end

mutual

/-- A tree and the subtrees below its root, in pre-order. -/
def subtrees : SyntaxTree → List SyntaxTree
  | node info children => node info children :: allSubtrees children

/-- Some trees and the subtrees below their roots, in pre-order. -/
def allSubtrees : List SyntaxTree → List SyntaxTree
  | [] => []
  | t :: rest => subtrees t ++ allSubtrees rest

end

/-- What the terminals among some trees say, in pre-order. -/
def terminals (ts : List SyntaxTree) : List NodeInfo :=
  (ts.flatMap infos).filter (fun info => decide (info.kind = .terminal))

mutual

/-- What the two ends of each edge of a tree say, the parent first. -/
def edges : SyntaxTree → List (NodeInfo × NodeInfo)
  | node info children => edgesBelow info children

/-- The edges from a node to some children, and those inside the children. -/
def edgesBelow (info : NodeInfo) : List SyntaxTree → List (NodeInfo × NodeInfo)
  | [] => []
  | t :: rest => (info, t.info) :: (edges t ++ edgesBelow info rest)

end

end SyntaxTree

/-- A tree of which each node keeps its kind, label and intent and the lexeme and tag of its symbol. -/
inductive Meaning where
  | node (kind : NodeKind) (label : String) (intent : Intent) (lexical : Option (String × String)) (children : List Meaning)

namespace SyntaxTree

mutual

/-- What a tree means. -/
def meaning : SyntaxTree → Meaning
  | node info children => .node info.kind info.label info.intent info.lexical (meanings children)

/-- What some trees mean. -/
def meanings : List SyntaxTree → List Meaning
  | [] => []
  | t :: rest => meaning t :: meanings rest

end

end SyntaxTree

end TokenForest
