import TokenForest.Config.Form
import TokenForest.Fault
import TokenForest.Json.Lines

/-!
# Input files

Token streams, one record per line, and configuration files. A record that does not convert is reported with its line,
unless its line holds no object or a number beyond all range, which stop the reading as they are.
-/

namespace TokenForest

namespace TokenFile

/-- The fault is reported with the line of the record. -/
def isLocated : TokenRecord.Fault → Bool
  | .notAnObject _ => false
  | .integerInfinite => false
  | .scoreTooLarge => false
  | _ => true

/-- The fault of a file whose line does not convert; lines that are blank do not count. -/
def lineFault (file : String) (line : Nat) (fault : TokenRecord.Fault) : Fault :=
  if isLocated fault then .recordLine file line fault else .record fault

/-- The records of some lines from a number on. -/
def convert (file : String) : Nat → List Json → Except Fault (List TokenRecord)
  | _, [] => .ok []
  | line, value :: rest => do
    let r ← (TokenRecord.ofJson value).mapError (lineFault file line)
    let rs ← convert file (line + 1) rest
    return r :: rs

/-- The records of a token file. All of its lines have to be read by the codec before the first one is converted. -/
def readWith (codec : Json.Codec) (file : String) (bytes : ByteArray) : Except Fault (List TokenRecord) :=
  match codec.readLinesBytes? bytes with
  | some values => convert file 1 values
  | none => .error .notJson

/-- The records of a token file, whose lines are JSON. -/
def read (file : String) (bytes : ByteArray) : Except Fault (List TokenRecord) := readWith .compact file bytes

end TokenFile

namespace ConfigFile

/-- The configuration in a file, which holds one JSON object. -/
def read (file : String) (bytes : ByteArray) : Except Config.Fault Config :=
  match Json.readBytes? .file bytes with
  | none => .error (.notJson file)
  | some (.obj members) => Config.ofJson (.obj members)
  | some _ => .error (.notAnObject file)

end ConfigFile

namespace TokenFile

/-! ## Lines and their records -/

/-- The line holds the record. -/
def Holds (line : String) (r : TokenRecord) : Prop := ∃ v, Json.read? .file line = some v ∧ TokenRecord.ofJson v = .ok r

/-- The lines in front hold records, and the one behind them holds a value that is none. -/
structure Stops (lines front : List String) (v : Json) (fault : TokenRecord.Fault) : Prop where
  split : ∃ line back, lines = front ++ line :: back ∧ Json.read? .file line = some v
  before : ∀ line ∈ front, ∃ r, Holds line r
  fault : TokenRecord.ofJson v = .error fault

end TokenFile

namespace TokenRecord

/-- The record passes its checks, and its integers fit into 64 bits. -/
structure Storable (r : TokenRecord) : Prop where
  valid : r.fault? = none
  fits : ∀ n : Int, some n ∈ [r.row, r.column, r.process, r.stage, r.phase] → Json.fits64 n = true

/-- The members that say what their absence says. -/
def defaults : List (String × Json) :=
  [("row", .null), ("column", .null), ("process", .null), ("stage", .null), ("phase", .null), ("intent_hint", .str ""),
    ("lexical_confidence", .float 1)]

/-- The object of the record, or what is left of it without some members at their defaults. -/
inductive Writes (r : TokenRecord) : Json → Prop where
  | obj {all members : List (String × Json)} (hall : r.toJson = .obj all) (hsublist : members.Sublist all)
      (hrest : ∀ m ∈ all, m ∈ members ∨ m ∈ defaults) : Writes r (.obj members)

end TokenRecord

end TokenForest
