import TokenForest.Json.Display
import TokenForest.Numeral
import TokenForest.Vocabulary

/-!
# Token records

One record of the token stream. A record made from a JSON object takes whatever its fields can be read as: texts from
any value, integers and the score from numbers and from numerals.
-/

namespace TokenForest

/-- A token as the tokenizer reports it. Row and column may be left open; the grid infers them. -/
structure TokenRecord where
  symbolClass : SymbolClass
  typeTag : String
  lexeme : String
  row : Option Int
  column : Option Int
  process : Option Int
  stage : Option Int
  phase : Option Int
  intentHint : String
  score : Binary64
  deriving DecidableEq, Repr

namespace TokenRecord

/-! ## Checks -/

/-- Why a value is not a record. -/
inductive Fault where
  | notAnObject (kind : String)
  | integerText (text : String)
  | integerLength (digits : Nat)
  | integerKind (kind : String)
  | integerNan
  | integerInfinite
  | scoreText (text : String)
  | scoreKind (kind : String)
  | scoreTooLarge
  | unknownClass (name : String)
  | emptyTag
  | emptyLexeme
  | scoreRange
  deriving DecidableEq, Repr

/-- The greatest number of characters of a quoted text that a message about an integer shows. -/
def shownWidth : Nat := 200

/-- The message of a fault. -/
def Fault.message : Fault → String
  | notAnObject kind => s!"'{kind}' object has no attribute 'get'"
  | integerText text =>
    "invalid literal for int() with base 10: " ++ String.ofList ((Text.quoted text).toList.take shownWidth)
  | integerLength digits =>
    s!"Exceeds the limit (4300 digits) for integer string conversion: value has {digits} digits; "
      ++ "use sys.set_int_max_str_digits() to increase the limit"
  | integerKind kind => s!"int() argument must be a string, a bytes-like object or a real number, not '{kind}'"
  | integerNan => "cannot convert float NaN to integer"
  | integerInfinite => "cannot convert float infinity to integer"
  | scoreText text => s!"could not convert string to float: {Text.quoted text}"
  | scoreKind kind => s!"float() argument must be a string or a real number, not '{kind}'"
  | scoreTooLarge => "int too large to convert to float"
  | unknownClass name => s!"unknown symbol_class {Text.quoted name}"
  | emptyTag => "type_tag cannot be empty"
  | emptyLexeme => "lexeme cannot be empty"
  | scoreRange => "lexical_confidence must be in [0.0, 1.0]"

/-- The first check that the fields fail. -/
def fault? (r : TokenRecord) : Option Fault :=
  if !r.symbolClass.isKnown then some (.unknownClass r.symbolClass.name)
  else if r.typeTag = "" then some .emptyTag
  else if r.lexeme = "" then some .emptyLexeme
  else if !r.score.inUnit then some .scoreRange
  else none

/-- The record, when its fields pass the checks. -/
def check (r : TokenRecord) : Except Fault TokenRecord :=
  match r.fault? with
  | some fault => .error fault
  | none => .ok r

/-! ## Reading -/

/-- The text of a field; empty when the field is absent or blank. -/
def textField (payload : Json) (key : String) : String :=
  match payload.get? key with
  | some value => if value.isBlank then "" else value.display
  | none => ""

/-- The integer that a value stands for: the integer part of a number, or a numeral. -/
def toInteger (value : Json) : Except Fault Int :=
  match value with
  | .int n => .ok n
  | .bool b => .ok (if b then 1 else 0)
  | .float .nan => .error .integerNan
  | .float x =>
    match x.truncate? with
    | some n => .ok n
    | none => .error .integerInfinite
  | .str s =>
    match Numeral.readInteger s with
    | .ok n => .ok n
    | .error .malformed => .error (.integerText s)
    | .error (.tooLong digits) => .error (.integerLength digits)
  | other => .error (.integerKind other.kindName)

/-- The integer of a field; none when the field is absent or null. -/
def integerField (payload : Json) (key : String) : Except Fault (Option Int) :=
  match payload.get? key with
  | none => .ok none
  | some .null => .ok none
  | some value => (toInteger value).map some

/-- The number that a value stands for. -/
def toScore (value : Json) : Except Fault Binary64 :=
  match value with
  | .float x => .ok x
  | .bool b => .ok (if b then 1 else 0)
  | .int n =>
    let x := Binary64.ofInt n
    if x.isFinite then .ok x else .error .scoreTooLarge
  | .str s =>
    match Numeral.readDecimal? s with
    | some x => .ok x
    | none => .error (.scoreText s)
  | other => .error (.scoreKind other.kindName)

/-- The score of a record; 1 when the field is absent. -/
def scoreField (payload : Json) (key : String) : Except Fault Binary64 :=
  match payload.get? key with
  | none => .ok 1
  | some value => toScore value

/-- The record in a JSON object: its texts, then its integers, then its score are read, and then it is checked. -/
def ofJson (payload : Json) : Except Fault TokenRecord :=
  match payload with
  | .obj _ => do
    let row ← integerField payload "row"
    let column ← integerField payload "column"
    let process ← integerField payload "process"
    let stage ← integerField payload "stage"
    let phase ← integerField payload "phase"
    let score ← scoreField payload "lexical_confidence"
    check {
      symbolClass := .ofName (textField payload "symbol_class")
      typeTag := textField payload "type_tag"
      lexeme := textField payload "lexeme"
      row, column, process, stage, phase
      intentHint := textField payload "intent_hint"
      score }
  | other => .error (.notAnObject other.kindName)

/-- The JSON object of a record, all ten fields written. -/
def toJson (r : TokenRecord) : Json :=
  .obj [
    ("symbol_class", .str r.symbolClass.name),
    ("type_tag", .str r.typeTag),
    ("lexeme", .str r.lexeme),
    ("row", .ofInt? r.row),
    ("column", .ofInt? r.column),
    ("process", .ofInt? r.process),
    ("stage", .ofInt? r.stage),
    ("phase", .ofInt? r.phase),
    ("intent_hint", .str r.intentHint),
    ("lexical_confidence", .float r.score)]

/-! ## Records with other entries -/

/-- The record under another tag and with a hint. -/
def retag (r : TokenRecord) (typeTag : String) (hint : Hint) : TokenRecord := { r with typeTag, intentHint := hint.name }

/-- The record with another score. -/
def rescore (r : TokenRecord) (score : Binary64) : TokenRecord := { r with score }

/-- A record without its stage, process and phase. -/
def unstaged (r : TokenRecord) : TokenRecord := { r with process := none, stage := none, phase := none }

end TokenRecord

end TokenForest
