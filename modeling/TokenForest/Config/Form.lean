import TokenForest.Config
import TokenForest.Numeral

/-!
# The form of a configuration object

A JSON object is read field by field, and every place of the wrong form is reported, not only the first. How a single value is
read is a parameter of the schema; the readers given here take numbers written as numerals in strings and truth values written as
words. What has the right form is then validated as a configuration.
-/

namespace TokenForest

namespace Config

/-! ## Readings that collect their faults -/

/-- The outcome of reading a part of an object: its value, or all places of the wrong form in it. -/
inductive Form (α : Type) where
  | value (a : α)
  | wrong (details : List Detail)

namespace Form

/-- Applies a function to the value of a part. -/
def map {α β : Type} (f : α → β) : Form α → Form β
  | value a => value (f a)
  | wrong ds => wrong ds

/-- Two parts side by side; the faults of both are kept. -/
def both {α β : Type} : Form α → Form β → Form (α × β)
  | value a, value b => value (a, b)
  | value _, wrong ds => wrong ds
  | wrong ds, value _ => wrong ds
  | wrong ds, wrong es => wrong (ds ++ es)

/-- A fault of a part as a whole. -/
def fault {α : Type} (place kind : String) : Form α := wrong [⟨place, kind⟩]

/-- The parts of a list side by side. -/
def all {α : Type} : List (Form α) → Form (List α)
  | [] => value []
  | x :: rest => (both x (all rest)).map (fun p => p.1 :: p.2)

end Form

/-! ## Readers -/

/-- The reading of a value of one type: the value, or the kind of fault. -/
abbrev Reader (α : Type) := Json → Except String α

/-- What is read at a place of an object. -/
def Reader.form {α : Type} (read : Reader α) (place : String) (v : Json) : Form α :=
  match read v with
  | .ok a => .value a
  | .error kind => .fault place kind

/-- What is expected of the reading of a type whose values are written in this way: a value of the type is kept as it is, and arrays
and objects, which are of other types, are refused. -/
structure Reader.Typed {α : Type} (read : Reader α) (write : α → Json) : Prop where
  kept : ∀ a, read (write a) = .ok a
  array : ∀ items, (read (.arr items)).isOk = false
  object : ∀ members, (read (.obj members)).isOk = false

/-- How the values of fields are read. -/
structure Readers where
  number : Reader Binary64
  integer : Reader Int
  truth : Reader Bool

/-- What is expected of readers: types are checked, and values of the right type are kept as they are. -/
structure Readers.Typed (readers : Readers) : Prop where
  number : readers.number.Typed .float
  integer : readers.integer.Typed .int
  truth : readers.truth.Typed .bool

/-! ## Numbers and truth values -/

/-- The text without underscores, which stand neither at an end nor next to each other. -/
def withoutUnderscores? (cs : List Char) : Option (List Char) :=
  if cs.head? = some '_' ∨ cs.getLast? = some '_' ∨ (cs.zip cs.tail).contains ('_', '_') then none
  else some (cs.filter (· ≠ '_'))

/-- The number that a string stands for. -/
def numeral? (s : String) : Option Binary64 :=
  (Numeral.decimal? (Text.trim Text.isBlank s.toList)).or
    ((withoutUnderscores? s.toList).bind Numeral.decimal?)

/-- A number: a JSON number, a truth value as 1 or 0, or a numeral. -/
def readFloat : Reader Binary64
  | .float x => .ok x
  | .int n =>
    let x := Binary64.ofInt n
    if x.isFinite then .ok x else .error "float_type"
  | .bool b => .ok (if b then 1 else 0)
  | .str s =>
    match numeral? s with
    | some x => .ok x
    | none => .error "float_parsing"
  | _ => .error "float_type"

/-- The text from the first digit that counts, where a text starts with a digit or with a minus. Zeros at the front, which
may have underscores among them, do not count; the last of these characters is kept when nothing but a fraction follows. -/
def withoutLeadingZeros? (cs : List Char) : Option (List Char) :=
  let counts (c : Char) : Bool := (c.isDigit && c ≠ '0') || c = '-'
  match cs with
  | '0' :: rest =>
    let isFiller (c : Char) : Bool := c = '0' || c = '_'
    let last := ('0' :: rest.takeWhile isFiller).getLastD '0'
    match rest.dropWhile isFiller with
    | [] => some [last]
    | '.' :: fraction => some (last :: '.' :: fraction)
    | c :: digits => if counts c then some (c :: digits) else none
  | c :: _ => if counts c then some cs else none
  | [] => none

/-- The digits without a fraction of zeros; a point without a digit behind it stays. -/
def withoutZeroFraction (cs : List Char) : List Char :=
  let whole := cs.takeWhile (· ≠ '.')
  let fraction := (cs.dropWhile (· ≠ '.')).tail
  if fraction ≠ [] ∧ fraction.all (· = '0') then whole else cs

/-- The digits that count, without a fraction of zeros and without underscores. Underscores that stand where none may are
left in. -/
def bareDigits? (cs : List Char) : Option (List Char) :=
  (withoutLeadingZeros? cs).map fun digits =>
    let whole := withoutZeroFraction digits
    (withoutUnderscores? whole).getD whole

/-- A trimmed text as a minus, if there is one, and the digits that count. A sign does not follow a plus. -/
def bareInteger? (cs : List Char) : Option (List Char) :=
  match cs with
  | '-' :: rest => (bareDigits? rest).map ('-' :: ·)
  | '+' :: '-' :: _ => none
  | '+' :: rest => bareDigits? rest
  | _ => bareDigits? cs

/-- Digits in ASCII, one at least, none of them a leading zero. -/
def plainDigits? (cs : List Char) : Option (List Nat) :=
  if cs ≠ [] ∧ cs.all Char.isDigit ∧ (cs.head? ≠ some '0' ∨ cs.length = 1) then
    some (cs.map Numeral.asciiDigit)
  else none

/-- The integer that a bare text stands for, or the kind of fault. A text that starts with too many characters of a number
has the wrong size, whatever follows them. -/
def readBareInteger (cs : List Char) : Except String Int :=
  let (negative, digits) := match cs with
    | '-' :: rest => (true, rest)
    | _ => (false, cs)
  let length := (digits.takeWhile Char.isDigit).length + (if negative then 1 else 0)
  if digits.head? ≠ some '0' ∧ Numeral.maxDigits < length then .error "int_parsing_size"
  else
    match plainDigits? digits with
    | some ds =>
      let n : Int := Numeral.ofDigits ds
      .ok (if negative then -n else n)
    | none => .error "int_parsing"

/-- The integer that a string stands for, or the kind of fault. -/
def readIntegerText (s : String) : Except String Int :=
  match bareInteger? (Text.trim Text.isBlank s.toList) with
  | some cs => readBareInteger cs
  | none => .error "int_parsing"

/-- The integer lies strictly inside the range of signed 64-bit numbers. -/
def insideSigned64 (n : Int) : Bool := decide (-9223372036854775808 < n) && decide (n < 9223372036854775808)

/-- An integer: a JSON integer, a number without a fraction that fits into 64 bits, a truth value or a numeral. -/
def readInteger : Reader Int
  | .int n => .ok n
  | .bool b => .ok (if b then 1 else 0)
  | .float x =>
    match x.truncate? with
    | none => .error "finite_number"
    | some n =>
      if !x.isIntegral then .error "int_from_float"
      else if insideSigned64 n then .ok n
      else .error "int_parsing_size"
  | .str s => readIntegerText s
  | _ => .error "int_type"

/-- The words for true. -/
def trueWords : List String := ["1", "on", "t", "true", "y", "yes"]

/-- The words for false. -/
def falseWords : List String := ["0", "off", "f", "false", "n", "no"]

/-- The truth value of an integer. -/
def boolOfInteger (n : Int) : Except String Bool :=
  if n = 0 then .ok false else if n = 1 then .ok true else .error "bool_parsing"

/-- A truth value: itself, 1 or 0, or one of the words for it in any case. -/
def readBool : Reader Bool
  | .bool b => .ok b
  | .int n => if insideSigned64 n ∨ n = -9223372036854775808 then boolOfInteger n else .error "bool_type"
  | .float x =>
    match x.truncate? with
    | some n => if x.isIntegral && insideSigned64 n then boolOfInteger n else .error "bool_type"
    | none => .error "bool_type"
  | .str s =>
    let word := String.ofList (s.toList.map Text.lower)
    if trueWords.contains word then .ok true
    else if falseWords.contains word then .ok false
    else .error "bool_parsing"
  | _ => .error "bool_type"

/-- The readers that take numerals and words. -/
def Readers.lax : Readers := ⟨readFloat, readInteger, readBool⟩

/-! ## Objects -/

/-- A field that has to be there. -/
def required {α : Type} (read : String → Json → Form α) (place : String) (members : List (String × Json))
    (key : String) : Form α :=
  match members.lookup key with
  | some value => read (place ++ key) value
  | none => .fault (place ++ key) "missing"

/-- A field with a value to use when it is absent. -/
def optional {α : Type} (read : String → Json → Form α) (place : String) (members : List (String × Json))
    (key : String) (absent : α) : Form α :=
  match members.lookup key with
  | some value => read (place ++ key) value
  | none => .value absent

/-- No members but those with these keys. -/
def onlyKeys (place : String) (members : List (String × Json)) (keys : List String) : Form Unit :=
  match members.filter (fun m => !keys.contains m.1) with
  | [] => .value ()
  | extra => .wrong (extra.map (fun m => ⟨place ++ m.1, "extra_forbidden"⟩))

section

variable (readers : Readers)

/-- The items of an array of integers. -/
def readItems (place : String) : Nat → List Json → List (Form Int)
  | _, [] => []
  | i, x :: rest => readers.integer.form s!"{place}.{i}" x :: readItems place (i + 1) rest

/-- A list of integers. -/
def readIntegers (place : String) : Json → Form (List Int)
  | .arr items => .all (readItems readers place 0 items)
  | _ => .fault place "list_type"

/-- A map from names to numbers. -/
def readFloats (place : String) : Json → Form (List (String × Binary64))
  | .obj members => .all (members.map (fun m => (readers.number.form s!"{place}.{m.1}" m.2).map (fun x => (m.1, x))))
  | _ => .fault place "dict_type"

/-- The weights as four numbers, not yet validated. -/
def readWeights (place : String) : Json → Form (Option Weights)
  | .obj members =>
    let inside := place ++ "."
    (Form.both (required readers.number.form inside members "alpha")
      (Form.both (required readers.number.form inside members "beta")
        (Form.both (required readers.number.form inside members "gamma")
          (Form.both (optional readers.number.form inside members "delta" 0)
            (onlyKeys inside members ["alpha", "beta", "gamma", "delta"]))))).map
      (fun (a, b, g, d, _) => some ⟨a, b, g, d⟩)
  | .null => .value none
  | _ => .fault place "model_type"

/-- The staging part. -/
def readStaging (place : String) : Json → Form Staging
  | .obj members =>
    let inside := place ++ "."
    (Form.both (optional readers.truth.form inside members "enabled" false)
      (Form.both (optional (readIntegers readers) inside members "stage_ids" [])
        (Form.both (optional (readIntegers readers) inside members "process_ids" [])
          (Form.both (optional (readIntegers readers) inside members "phase_ids" [])
            (onlyKeys inside members ["enabled", "stage_ids", "process_ids", "phase_ids"]))))).map
      (fun (enabled, stages, processes, phases, _) =>
        ⟨enabled, Staging.idSet stages, Staging.idSet processes, Staging.idSet phases⟩)
  | _ => .fault place "model_type"

/-- The fields of a configuration as they are read. -/
structure Fields where
  weights : Option Weights
  thetaMin : Binary64
  intentThresholds : List (String × Binary64)
  componentMinimums : List (String × Binary64)
  staging : Staging
  equivalenceTolerance : Binary64
  maxWorkers : Int

/-- The keys of a configuration. -/
def keys : List String :=
  ["weights", "theta_min", "intent_thresholds", "component_minimums", "staging", "equivalence_tolerance", "max_workers"]

/-- The fields of a configuration object. -/
def readFields : Json → Form Fields
  | .obj members =>
    (Form.both (optional (readWeights readers) "" members "weights" none)
      (Form.both (optional readers.number.form "" members "theta_min" default.thetaMin)
        (Form.both (optional (readFloats readers) "" members "intent_thresholds" [])
          (Form.both (optional (readFloats readers) "" members "component_minimums" [])
            (Form.both (optional (readStaging readers) "" members "staging" .off)
              (Form.both (optional readers.number.form "" members "equivalence_tolerance" default.equivalenceTolerance)
                (Form.both (optional readers.integer.form "" members "max_workers" default.maxWorkers)
                  (onlyKeys "" members keys)))))))).map
      (fun (weights, thetaMin, thresholds, minimums, staging, tolerance, workers, _) =>
        ⟨weights, thetaMin, thresholds, minimums, staging, tolerance, workers⟩)
  | _ => .fault "" "model_type"

end

/-- The order of details: by place, then by kind. -/
def detailLe (a b : Detail) : Bool :=
  decide (a.place < b.place) || (a.place == b.place && decide (a.kind ≤ b.kind))

/-- The configuration with these fields, when it is valid. -/
def ofFields (f : Fields) : Except Fault Config := do
  let weights ← match f.weights with
    | some w => Weights.make? w.alpha w.beta w.gamma w.delta
    | none => .ok .default
  let config : Config := {
    weights
    thetaMin := f.thetaMin
    intentThresholds := (sortPairs f.intentThresholds).map (fun p => (.ofName p.1, p.2))
    componentMinimums := sortPairs f.componentMinimums
    staging := f.staging
    equivalenceTolerance := f.equivalenceTolerance
    maxWorkers := f.maxWorkers }
  config.validate
  return config

/-- The configuration in a JSON object, when it has the right form and is valid. -/
def ofJsonWith (readers : Readers) (payload : Json) : Except Fault Config :=
  match readFields readers payload with
  | .wrong details => .error (.form (details.mergeSort detailLe))
  | .value fields => ofFields fields

/-- The configuration in a JSON object whose numbers may be numerals and whose truth values may be words. -/
def ofJson (payload : Json) : Except Fault Config := ofJsonWith .lax payload

end Config

end TokenForest
