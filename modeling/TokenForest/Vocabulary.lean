/-!
# The vocabulary of symbols

The closed lists that classify tokens: the class of a symbol, the hint of its role in a row and the intent of what it
does. A name outside a list is kept as it was given, so that the checks that refuse it can quote it and tables keyed by
it still work.
-/

namespace TokenForest

/-- The class of a token as the tokenizer reports it. -/
inductive SymbolClass where
  | terminal
  | delimiter
  | query
  | closure
  | processControl
  | other (name : String)
  deriving DecidableEq, Repr

namespace SymbolClass

/-- The class with this name. -/
def ofName (name : String) : SymbolClass :=
  match name with
  | "terminal" => terminal
  | "delimiter" => delimiter
  | "query" => query
  | "closure" => closure
  | "process_control" => processControl
  | _ => other name

/-- The name of a class. -/
def name : SymbolClass → String
  | terminal => "terminal"
  | delimiter => "delimiter"
  | query => "query"
  | closure => "closure"
  | processControl => "process_control"
  | other name => name

/-- The class is on the list. -/
def isKnown : SymbolClass → Bool
  | other _ => false
  | _ => true

end SymbolClass

/-- The role that a symbol plays in its row. -/
inductive Hint where
  | identifier
  | typeKeyword
  | controlKeyword
  | literal
  | call
  | operatorAssign
  | operator
  | delimiter
  | query
  | closure
  | process
  | other (name : String)
  deriving DecidableEq, Repr

namespace Hint

/-- The hint with this name. -/
def ofName (name : String) : Hint :=
  match name with
  | "identifier" => identifier
  | "type_keyword" => typeKeyword
  | "control_keyword" => controlKeyword
  | "literal" => literal
  | "call" => call
  | "operator_assign" => operatorAssign
  | "operator" => operator
  | "delimiter" => delimiter
  | "query" => query
  | "closure" => closure
  | "process" => process
  | _ => other name

/-- The name of a hint. -/
def name : Hint → String
  | identifier => "identifier"
  | typeKeyword => "type_keyword"
  | controlKeyword => "control_keyword"
  | literal => "literal"
  | call => "call"
  | operatorAssign => "operator_assign"
  | operator => "operator"
  | delimiter => "delimiter"
  | query => "query"
  | closure => "closure"
  | process => "process"
  | other name => name

/-- The hint is on the list. -/
def isKnown : Hint → Bool
  | other _ => false
  | _ => true

end Hint

/-- What a symbol or a statement does. -/
inductive Intent where
  | declare
  | assign
  | control
  | invoke
  | query
  | terminate
  | processTransition
  | unresolved
  | other (name : String)
  deriving DecidableEq, Repr

namespace Intent

/-- The intents on the list, in its order. -/
def all : List Intent := [declare, assign, control, invoke, query, terminate, processTransition, unresolved]

/-- The intent with this name. -/
def ofName (name : String) : Intent :=
  match name with
  | "declare" => declare
  | "assign" => assign
  | "control" => control
  | "invoke" => invoke
  | "query" => query
  | "terminate" => terminate
  | "process_transition" => processTransition
  | "unresolved" => unresolved
  | _ => other name

/-- The name of an intent. -/
def name : Intent → String
  | declare => "declare"
  | assign => "assign"
  | control => "control"
  | invoke => "invoke"
  | query => "query"
  | terminate => "terminate"
  | processTransition => "process_transition"
  | unresolved => "unresolved"
  | other name => name

/-- The intent is on the list. -/
def isKnown : Intent → Bool
  | other _ => false
  | _ => true

end Intent

end TokenForest
