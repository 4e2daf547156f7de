import TokenForest.Grammar.Lexeme
import TokenForest.Vocabulary

/-!
# Grammars

The tables that scoring, gating and building consult: the readings registered for each symbol class, the pairs of
brackets, the intents that may stand below an intent, and which intents may replace which. What may follow what inside a
row is the same for all grammars.
-/

namespace TokenForest

/-- One way to read the lexemes of a class. -/
structure Reading where
  symbolClass : SymbolClass
  typeTag : String
  hint : Hint
  shape : LexemeShape
  deriving DecidableEq, Repr

/-- The tables of a grammar. Inline pairs bracket a group inside a row, block pairs a block of rows. -/
structure Grammar where
  readings : List Reading
  inlinePairs : List (String × String)
  blockPairs : List (String × String)
  permitted : List (Option Intent × List Intent)
  nearest : List (Intent × List Intent)
  compatible : List (Intent × Intent)
  deriving DecidableEq, Repr

namespace Grammar

/-! ## The default grammar -/

/-- The registered readings of the default grammar. -/
def defaultReadings : List Reading := [
  ⟨.terminal, "identifier", .identifier, .identifier⟩,
  ⟨.terminal, "keyword.type", .typeKeyword, .oneOf ["int", "float", "str", "bool", "let", "var", "const", "def"]⟩,
  ⟨.terminal, "keyword.control", .controlKeyword,
    .oneOf ["if", "else", "while", "for", "return", "break", "continue"]⟩,
  ⟨.terminal, "literal", .literal, .literal⟩,
  ⟨.terminal, "call", .call, .identifier⟩,
  ⟨.terminal, "operator.assign", .operatorAssign, .oneOf ["=", ":=", "+=", "-=", "*=", "/="]⟩,
  ⟨.terminal, "operator", .operator,
    .oneOf ["==", "!=", "<=", ">=", "&&", "||", "-", "+", "*", "/", "%", "<", ">", "!", ":"]⟩,
  ⟨.delimiter, "delimiter", .delimiter, .oneOf ["(", "[", "\x7b", ","]⟩,
  ⟨.query, "query", .query, .oneOf ["?"]⟩,
  ⟨.closure, "closure", .closure, .oneOf [";", ")", "]", "\x7d"]⟩,
  ⟨.processControl, "process", .process, .oneOf ["fork", "join", "spawn", "yield", "stage", "phase", "barrier"]⟩]

/-- The intents that may stand below each intent, and as roots, in the default grammar. -/
def defaultPermitted : List (Option Intent × List Intent) := [
  (none, [.declare, .assign, .control, .invoke, .query, .terminate, .processTransition]),
  (some .declare, [.declare, .assign, .invoke, .query, .terminate]),
  (some .assign, [.assign, .declare, .invoke, .query, .terminate]),
  (some .control, [.control, .declare, .assign, .invoke, .query, .terminate, .processTransition]),
  (some .invoke, [.invoke, .query, .assign, .terminate]),
  (some .query, [.query, .invoke, .control, .terminate]),
  (some .processTransition, [.processTransition, .control, .invoke, .declare, .assign, .terminate]),
  (some .terminate, []),
  (some .unresolved, [])]

/-- The intents to fall back to, nearest first, in the default grammar. -/
def defaultNearest : List (Intent × List Intent) := [
  (.declare, [.assign]),
  (.assign, [.declare, .invoke]),
  (.control, [.query, .processTransition]),
  (.invoke, [.query, .assign]),
  (.query, [.invoke, .control]),
  (.processTransition, [.control, .invoke]),
  (.terminate, []),
  (.unresolved, [])]

/-- The default grammar. -/
def default : Grammar where
  readings := defaultReadings
  inlinePairs := [("(", ")"), ("[", "]")]
  blockPairs := [("\x7b", "\x7d")]
  permitted := defaultPermitted
  nearest := defaultNearest
  compatible := [(.declare, .assign), (.assign, .declare)]

/-! ## Readings -/

/-- The registered readings of a class, in order. -/
def readingsOf (g : Grammar) (c : SymbolClass) : List Reading := g.readings.filter (fun r => decide (r.symbolClass = c))

/-- The first reading of a class with this tag. -/
def reading? (g : Grammar) (c : SymbolClass) (typeTag : String) : Option Reading :=
  g.readings.find? (fun r => decide (r.symbolClass = c) && r.typeTag == typeTag)

/-- The hint of a class whose tag has no reading. -/
def classHint? : SymbolClass → Option Hint
  | .terminal => some .identifier
  | .delimiter => some .delimiter
  | .query => some .query
  | .closure => some .closure
  | .processControl => some .process
  | .other _ => none

/-- The hint of a token: the reported one when it is on the list, else that of its reading, else that of its class. -/
def hintOf? (g : Grammar) (c : SymbolClass) (typeTag rawHint : String) : Option Hint :=
  let reported := Hint.ofName rawHint
  if reported.isKnown then some reported
  else match g.reading? c typeTag with
    | some r => some r.hint
    | none => classHint? c

/-- The lexeme fits the reading registered for its class and tag. -/
def recognizes (g : Grammar) (c : SymbolClass) (typeTag lexeme : String) : Bool :=
  match g.reading? c typeTag with
  | some r => r.shape.fits lexeme
  | none => false

/-! ## Rows -/

/-- The hints that may follow a hint inside a row; `none` is the start of the row. -/
def followers : Option Hint → List Hint
  | none =>
    [.typeKeyword, .controlKeyword, .identifier, .call, .process, .closure, .literal, .delimiter]
  | some .typeKeyword => [.identifier, .call]
  | some .controlKeyword => [.delimiter, .identifier, .literal, .call, .closure, .operator]
  | some .identifier => [.operatorAssign, .operator, .query, .closure, .delimiter]
  | some .call => [.delimiter]
  | some .literal => [.operator, .query, .closure, .delimiter]
  | some .operatorAssign => [.identifier, .literal, .call, .delimiter, .operator]
  | some .operator => [.identifier, .literal, .call, .delimiter]
  | some .query => [.identifier, .literal, .call, .delimiter, .closure]
  | some .delimiter =>
    [.identifier, .literal, .call, .delimiter, .closure, .operator, .typeKeyword, .controlKeyword, .query]
  | some .closure =>
    [.closure, .delimiter, .operator, .query, .identifier, .literal, .call, .controlKeyword]
  | some .process => [.identifier, .literal, .call, .delimiter, .closure]
  | some (.other _) => []

/-- The hint on the right may follow the one on the left. -/
def canFollow (left : Option Hint) (right : Hint) : Bool := (followers left).contains right

/-- The hint may stand at the end of a row. -/
def canEndRow (h : Hint) : Bool :=
  [Hint.closure, .identifier, .literal, .delimiter, .process, .controlKeyword].contains h

/-! ## Brackets -/

/-- The lexeme opens a block. -/
def opensBlock (g : Grammar) (lexeme : String) : Bool := g.blockPairs.any (·.1 == lexeme)

/-- The lexeme closes a block. -/
def closesBlock (g : Grammar) (lexeme : String) : Bool := g.blockPairs.any (·.2 == lexeme)

/-- The lexeme opens a group inside a row. -/
def opensGroup (g : Grammar) (lexeme : String) : Bool := g.inlinePairs.any (·.1 == lexeme)

/-- The lexeme closes a group inside a row. -/
def closesGroup (g : Grammar) (lexeme : String) : Bool := g.inlinePairs.any (·.2 == lexeme)

/-- The lexeme opens a group or a block. -/
def opens (g : Grammar) (lexeme : String) : Bool := g.opensGroup lexeme || g.opensBlock lexeme

/-- The lexeme closes a group or a block. -/
def closes (g : Grammar) (lexeme : String) : Bool := g.closesGroup lexeme || g.closesBlock lexeme

/-- The lexeme that closes what this one opens. The inline pair comes first, unless its closer is empty. -/
def closer? (g : Grammar) (opener : String) : Option String :=
  match g.inlinePairs.lookup opener with
  | some closer => if closer = "" then g.blockPairs.lookup opener else some closer
  | none => g.blockPairs.lookup opener

/-! ## Intents -/

/-- A node of this intent may stand below the parent intent; `none` is the parent of the roots. -/
def permits (g : Grammar) (parent : Option Intent) (child : Intent) : Bool :=
  ((g.permitted.lookup parent).getD []).contains child

/-- The fallbacks of an intent, nearest first. -/
def fallbacks (g : Grammar) (intent : Intent) : List Intent := (g.nearest.lookup intent).getD []

/-- The table with another entry for a key. -/
def replaceEntry {κ α : Type} [DecidableEq κ] (table : List (κ × α)) (key : κ) (value : α) : List (κ × α) :=
  (key, value) :: table.filter (fun e => decide (e.1 ≠ key))

/-- The table without the entry for a key. -/
def removeEntry {κ α : Type} [DecidableEq κ] (table : List (κ × α)) (key : κ) : List (κ × α) :=
  table.filter (fun e => decide (e.1 ≠ key))

/-! ## Other shapes -/

/-- The reading with another shape. -/
def reshapeReading (shape : Reading → LexemeShape) (r : Reading) : Reading := { r with shape := shape r }

/-- The grammar with other shapes for its readings. -/
def reshape (g : Grammar) (shape : Reading → LexemeShape) : Grammar := { g with readings := g.readings.map (reshapeReading shape) }

/-- Of some lexemes, the shapes admit those that the patterns of the readings admit. A pattern is any set of texts. -/
def Admits (g : Grammar) (shape : Reading → LexemeShape) (patterns : Reading → String → Bool) (lexemes : List String) : Prop :=
  ∀ r ∈ g.readings, ∀ lexeme ∈ lexemes, (shape r).fits lexeme = patterns r lexeme

/-- The shapes that list those of some lexemes that the patterns admit. -/
def listed (patterns : Reading → String → Bool) (lexemes : List String) (r : Reading) : LexemeShape :=
  .oneOf (lexemes.filter (patterns r))

/-! ## Conditions -/

/-- No lexeme is both an opener and a closer. -/
def BracketsApart (grammar : Grammar) : Prop := ∀ lexeme, grammar.opens lexeme = true → grammar.closes lexeme = false

/-- No class of symbols has two readings under one tag. -/
def DistinctReadings (g : Grammar) : Prop := (g.readings.map (fun r => (r.symbolClass, r.typeTag))).Nodup

instance (g : Grammar) : Decidable g.DistinctReadings :=
  inferInstanceAs (Decidable (g.readings.map (fun r => (r.symbolClass, r.typeTag))).Nodup)

end Grammar

end TokenForest
