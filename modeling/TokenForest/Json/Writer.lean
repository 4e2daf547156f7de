import TokenForest.Binary64.Decimal
import TokenForest.Json.Reader

/-!
# Writing JSON

One printer with a record of layout decisions. Files have their keys in order and hold machine numbers only: a number
without a JSON form is written null, and an integer beyond 64 bits is refused.
-/

namespace TokenForest

namespace Json

/-- The layout decisions of a printer. -/
structure Style where
  /-- Spaces per level of nesting; on one line without any space when absent. -/
  indent : Option Nat
  /-- Members are written in order of their keys. -/
  sortKeys : Bool
  /-- Characters beyond ASCII are written as escapes. -/
  asciiOnly : Bool
  /-- Infinities and not-a-number are written null. -/
  finiteOnly : Bool
  /-- The layout of numbers with a fraction. -/
  numbers : Binary64.Layout
  deriving DecidableEq, Repr

/-- A file on one line. -/
def Style.compactFile : Style := ⟨none, true, false, true, .file⟩

/-- A file for reading, indented by two spaces. -/
def Style.prettyFile : Style := ⟨some 2, true, false, true, .file⟩

/-- A document on the terminal: members in their own order, ASCII only. -/
def Style.terminal : Style := ⟨some 2, false, true, false, .message⟩

/-! ## Strings -/

/-- Four hexadecimal digits. -/
def hexFour (n : Nat) : List Char :=
  [n / 4096 % 16, n / 256 % 16, n / 16 % 16, n % 16].map Nat.digitChar

/-- A 16-bit unit as an escape. -/
def unitEscape (n : Nat) : List Char := '\\' :: 'u' :: hexFour n

/-- A character as one escape, or as the two halves of its surrogate pair. -/
def charEscape (c : Char) : List Char :=
  let n := c.toNat
  if n < 0x10000 then unitEscape n
  else unitEscape (0xd800 + (n - 0x10000) / 0x400) ++ unitEscape (0xdc00 + (n - 0x10000) % 0x400)

/-- One character of a string. -/
def escapeChar (asciiOnly : Bool) (c : Char) : List Char :=
  if c = '"' then ['\\', '"']
  else if c = '\\' then ['\\', '\\']
  else if c = '\x08' then ['\\', 'b']
  else if c = '\x0c' then ['\\', 'f']
  else if c = '\n' then ['\\', 'n']
  else if c = '\r' then ['\\', 'r']
  else if c = '\t' then ['\\', 't']
  else if c.toNat < 32 then charEscape c
  else if asciiOnly && 127 ≤ c.toNat then charEscape c
  else [c]

/-- A string with its quotes. -/
def renderString (asciiOnly : Bool) (s : String) : String :=
  String.ofList ('"' :: s.toList.flatMap (escapeChar asciiOnly) ++ ['"'])

/-! ## Values -/

/-- A line break and the indentation of a level; nothing on one line. -/
def lineBreak (style : Style) (depth : Nat) : String :=
  match style.indent with
  | some n => "\n" ++ String.ofList (List.replicate (n * depth) ' ')
  | none => ""

/-- Rendered parts between two brackets, each on a line of its own when the style indents. -/
def enclose (style : Style) (depth : Nat) (opening closing : String) (parts : List String) : String :=
  if parts.isEmpty then opening ++ closing
  else
    opening ++ lineBreak style (depth + 1)
      ++ String.intercalate ("," ++ lineBreak style (depth + 1)) parts
      ++ lineBreak style depth ++ closing

/-- The text of a number with a fraction. -/
def renderFloat (style : Style) (x : Binary64) : String :=
  if style.finiteOnly && !x.isFinite then "null" else style.numbers.text x

/-- Rendered members in the order of the style. -/
def arrange (style : Style) (members : List (String × String)) : List (String × String) :=
  if style.sortKeys then members.mergeSort (fun a b => decide (a.1 ≤ b.1)) else members

/-- A rendered member. -/
def memberText (style : Style) (m : String × String) : String :=
  renderString style.asciiOnly m.1 ++ (if style.indent.isSome then ": " else ":") ++ m.2

mutual

/-- The text of a value at a level of nesting. -/
def renderAt (style : Style) (depth : Nat) : Json → String
  | null => "null"
  | bool b => if b then "true" else "false"
  | int n => toString n
  | float x => renderFloat style x
  | str s => renderString style.asciiOnly s
  | arr items => enclose style depth "[" "]" (renderItems style (depth + 1) items)
  | obj members =>
    enclose style depth "\x7b" "\x7d"
      ((arrange style (renderMembers style (depth + 1) members)).map (memberText style))

/-- The texts of items. -/
def renderItems (style : Style) (depth : Nat) : List Json → List String
  | [] => []
  | x :: rest => renderAt style depth x :: renderItems style depth rest

/-- The keys of members with the texts of their values. -/
def renderMembers (style : Style) (depth : Nat) : List (String × Json) → List (String × String)
  | [] => []
  | (key, x) :: rest => (key, renderAt style depth x) :: renderMembers style depth rest

end

/-- The text of a value. -/
def render (style : Style) (value : Json) : String := renderAt style 0 value

/-! ## Files -/

/-- Why a value is not written to a file. -/
inductive WriteFault where
  | integerRange
  | tooDeep
  deriving DecidableEq, Repr

namespace WriteFault

/-- The message of a fault. -/
def message : WriteFault → String
  | integerRange => "Integer exceeds 64-bit range"
  | tooDeep => "Recursion limit reached"

end WriteFault

/-- The greatest number of nested containers in a file that is written. -/
def maxWriteDepth : Nat := 254

mutual

/-- The first fault of a value in the order of writing, members by their keys, at a level of nesting. -/
def writeFaultAt? (depth : Nat) : Json → Option WriteFault
  | int n => if fits64 n then none else some .integerRange
  | arr items => if maxWriteDepth ≤ depth then some .tooDeep else itemsFault? (depth + 1) items
  | obj members =>
    if maxWriteDepth ≤ depth then some .tooDeep
    else ((memberFaults (depth + 1) members).mergeSort (fun a b => decide (a.1 ≤ b.1))).findSome? (·.2)
  | _ => none

/-- The first fault of some items. -/
def itemsFault? (depth : Nat) : List Json → Option WriteFault
  | [] => none
  | x :: rest => (writeFaultAt? depth x).or (itemsFault? depth rest)

/-- The keys of members with the first faults of their values. -/
def memberFaults (depth : Nat) : List (String × Json) → List (String × Option WriteFault)
  | [] => []
  | (key, x) :: rest => (key, writeFaultAt? depth x) :: memberFaults depth rest

end

/-- The text of a file that holds the value. -/
def fileText (style : Style) (value : Json) : Except WriteFault String :=
  match writeFaultAt? 0 value with
  | some fault => .error fault
  | none => .ok (render style value)

end Json

end TokenForest
