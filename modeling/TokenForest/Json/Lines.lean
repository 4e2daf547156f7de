import TokenForest.Json.Writer
import TokenForest.Text.Characters

/-!
# Files of JSON lines

One value per line. Lines of blanks hold no value, and blanks around a value are not part of it.
-/

namespace TokenForest

namespace Json

/-- The lines of a text, split at line feeds. -/
def splitLines : List Char → List (List Char)
  | [] => [[]]
  | c :: rest =>
    if c = '\n' then [] :: splitLines rest
    else match splitLines rest with
      | line :: lines => (c :: line) :: lines
      | [] => [[c]]

/-- The lines of a text that are not blank, without the blanks around them. -/
def filledLines (text : String) : List String :=
  (((splitLines text.toList).map (Text.trim Text.isLineBlank)).filter (· ≠ [])).map String.ofList

/-! ## Codecs -/

/-- The writing of a value as a text, and the reading of a value from one. -/
structure Codec where
  dumps : Json → Except WriteFault String
  loads : String → Option Json

/-- The codec of files with one value per line. -/
def Codec.compact : Codec := ⟨fileText .compactFile, read? .file⟩

namespace Codec

variable (codec : Codec)

/-- The values of the lines that are not blank, in order; nothing when one of them cannot be read. -/
def readLines? (s : String) : Option (List Json) := (filledLines s).mapM codec.loads

/-- The values of the lines of a file; its bytes have to be well-formed UTF-8. -/
def readLinesBytes? (bytes : ByteArray) : Option (List Json) := (String.fromUTF8? bytes).bind codec.readLines?

/-- The text of a file with one value per line; a file without values is an empty line. -/
def linesText (values : List Json) : Except WriteFault String :=
  (values.mapM codec.dumps).map (fun lines => String.intercalate "\n" lines ++ "\n")

end Codec

/-- The values of the lines that are not blank, in order; nothing when one of them is not JSON. -/
def readLines? (s : String) : Option (List Json) := Codec.compact.readLines? s

/-- The values of the lines of a file; its bytes have to be well-formed UTF-8. -/
def readLinesBytes? (bytes : ByteArray) : Option (List Json) := Codec.compact.readLinesBytes? bytes

/-- The text of a file with one value per line; a file without values is an empty line. -/
def linesText (values : List Json) : Except WriteFault String := Codec.compact.linesText values

/-! ## Lines -/

/-- Blanks on one line. -/
def Pad (s : String) : Prop := ∀ c ∈ s.toList, Text.isLineBlank c = true ∧ c ≠ '\n'

/-- The line begins and ends with a character that is no blank, and it is one line. -/
structure Framed (s : String) : Prop where
  first : ∃ c, s.toList.head? = some c ∧ Text.isLineBlank c = false
  last : ∃ c, s.toList.getLast? = some c ∧ Text.isLineBlank c = false
  single : '\n' ∉ s.toList

/-- The lines with blanks around them and lines of blanks between them. -/
inductive Spaced : List String → List String → Prop where
  | nil : Spaced [] []
  | blank {pad : String} {lines spaced : List String} (hpad : Pad pad) (h : Spaced lines spaced) : Spaced lines (pad :: spaced)
  | line {front back : String} {lines spaced : List String} (line : String) (hfront : Pad front) (hback : Pad back)
      (h : Spaced lines spaced) : Spaced (line :: lines) ((front ++ line ++ back) :: spaced)

/-! ## Flat objects -/

/-- A value without parts that a file can hold: null, a truth value, an integer of 64 bits, a finite number or a text. -/
inductive Scalar : Json → Prop where
  | null : Scalar null
  | bool (b : Bool) : Scalar (bool b)
  | int {n : Int} (h : fits64 n = true) : Scalar (int n)
  | float {x : Binary64} (h : x.isFinite = true) : Scalar (float x)
  | str (s : String) : Scalar (str s)

/-- An object with different names and values without parts. -/
structure Flat (members : List (String × Json)) : Prop where
  names : (members.map (·.1)).Nodup
  values : ∀ m ∈ members, Scalar m.2

/-- What is expected of a codec for flat objects: they are written on one line, without blanks at its ends, and what is written is read
back, the members in some order. -/
structure Codec.Faithful (codec : Codec) : Prop where
  written : ∀ members, Flat members → ∃ line, codec.dumps (.obj members) = .ok line
  framed : ∀ members line, Flat members → codec.dumps (.obj members) = .ok line → Framed line
  undone : ∀ members line, Flat members → codec.dumps (.obj members) = .ok line →
    ∃ others, others.Perm members ∧ codec.loads line = some (.obj others)

end Json

end TokenForest
