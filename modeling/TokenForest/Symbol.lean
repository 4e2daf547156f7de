import TokenForest.Binary64
import TokenForest.Text.Quoted
import TokenForest.Vocabulary

/-!
# Symbols

A classified token. Reading a token another way makes a new symbol of it, and every symbol passes the same checks.
-/

namespace TokenForest

/-- A classified token. -/
structure Symbol where
  id : String
  symbolClass : SymbolClass
  lexeme : String
  typeTag : String
  hint : Hint
  lexicalScore : Binary64
  stage : Option Int
  process : Option Int
  phase : Option Int
  deriving DecidableEq, Repr

namespace Symbol

/-- Why the fields of a symbol are refused. -/
inductive Fault where
  | emptyId
  | unknownClass (name : String)
  | unknownHint (name : String)
  | emptyLexeme
  | scoreRange
  deriving DecidableEq, Repr

/-- The message of a fault. -/
def Fault.message : Fault → String
  | emptyId => "symbol_id cannot be empty"
  | unknownClass name => s!"unknown symbol_class {Text.quoted name}"
  | unknownHint name => s!"unknown hint {Text.quoted name}"
  | emptyLexeme => "lexeme cannot be empty"
  | scoreRange => "lexical_score must be in [0.0, 1.0]"

/-- The first check that the fields fail. -/
def fault? (s : Symbol) : Option Fault :=
  if s.id = "" then some .emptyId
  else if !s.symbolClass.isKnown then some (.unknownClass s.symbolClass.name)
  else if !s.hint.isKnown then some (.unknownHint s.hint.name)
  else if s.lexeme = "" then some .emptyLexeme
  else if !s.lexicalScore.inUnit then some .scoreRange
  else none

/-- The symbol, when its fields pass the checks. -/
def check (s : Symbol) : Except Fault Symbol :=
  match s.fault? with
  | some fault => .error fault
  | none => .ok s

/-- The symbol under another tag and hint. -/
def retag (s : Symbol) (typeTag : String) (hint : Hint) : Symbol := { s with typeTag, hint }

end Symbol

end TokenForest
