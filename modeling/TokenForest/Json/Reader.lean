import TokenForest.Json
import TokenForest.Numeral

/-!
# Reading JSON

A text is cut into tokens, and the tokens drive a machine with a stack of open arrays and objects. The grammar is that
of RFC 8259 to the letter: no byte order mark, no trailing comma, no leading zero, no bare control character, and an
escaped surrogate only as half of a pair.
-/

namespace TokenForest

namespace Json

/-- What a reader takes beyond the grammar. -/
structure Dialect where
  /-- Integers outside 64 bits are read as binary64 numbers, and a number too large for binary64 is an error. -/
  machineNumbers : Bool
  /-- The greatest number of arrays and objects open at once, if there is one. -/
  maxDepth : Option Nat
  deriving DecidableEq, Repr

/-- Files: machine numbers, and at most 1024 open containers. -/
def Dialect.file : Dialect := ⟨true, some 1024⟩

/-- Integers of any size and any depth. -/
def Dialect.exact : Dialect := ⟨false, none⟩

/-- The integers that fit into 64 bits, with or without a sign. -/
def fits64 (n : Int) : Bool := decide (-9223372036854775808 ≤ n) && decide (n < 18446744073709551616)

/-! ## Tokens -/

/-- A token: a bracket, a separator or a value without parts. -/
inductive Token where
  | openArray
  | closeArray
  | openObject
  | closeObject
  | comma
  | colon
  | atom (value : Json)
  deriving DecidableEq

/-- The value of a hexadecimal digit. -/
def hexValue? (c : Char) : Option Nat :=
  if '0' ≤ c ∧ c ≤ '9' then some (c.toNat - '0'.toNat)
  else if 'a' ≤ c ∧ c ≤ 'f' then some (c.toNat - 'a'.toNat + 10)
  else if 'A' ≤ c ∧ c ≤ 'F' then some (c.toNat - 'A'.toNat + 10)
  else none

/-- The number with four hexadecimal digits. -/
def hexFour? (a b c d : Char) : Option Nat := do
  let a ← hexValue? a
  let b ← hexValue? b
  let c ← hexValue? c
  let d ← hexValue? d
  return ((a * 16 + b) * 16 + c) * 16 + d

/-- The character that a letter after a backslash stands for. -/
def escaped? (c : Char) : Option Char :=
  match c with
  | '"' => some '"'
  | '\\' => some '\\'
  | '/' => some '/'
  | 'b' => some '\x08'
  | 'f' => some '\x0c'
  | 'n' => some '\n'
  | 'r' => some '\r'
  | 't' => some '\t'
  | _ => none

/-- A piece of a string: a character, or a 16-bit unit given by number. -/
inductive Piece where
  | char (c : Char)
  | unit (n : Nat)
  deriving DecidableEq, Repr

/-- The pieces of a string up to its closing quote, and the text after it. -/
def pieces? : List Char → Option (List Piece × List Char)
  | [] => none
  | c :: rest =>
    if c = '"' then some ([], rest)
    else if c = '\\' then
      match rest with
      | [] => none
      | e :: rest =>
        if e = 'u' then
          match rest with
          | h₁ :: h₂ :: h₃ :: h₄ :: rest => do
            let n ← hexFour? h₁ h₂ h₃ h₄
            let (pieces, after) ← pieces? rest
            return (.unit n :: pieces, after)
          | _ => none
        else do
          let c ← escaped? e
          let (pieces, after) ← pieces? rest
          return (.char c :: pieces, after)
    else if c.toNat < 32 then none
    else do
      let (pieces, after) ← pieces? rest
      return (.char c :: pieces, after)

/-- The text of the pieces: two units that form a surrogate pair are one character, a lone surrogate is an error. -/
def joinPieces? : List Piece → Option (List Char)
  | [] => some []
  | .char c :: rest => (joinPieces? rest).map (c :: ·)
  | [.unit n] => if 0xd800 ≤ n ∧ n ≤ 0xdfff then none else some [Char.ofNat n]
  | .unit n :: .char c :: rest =>
    if 0xd800 ≤ n ∧ n ≤ 0xdfff then none
    else (joinPieces? rest).map (fun cs => Char.ofNat n :: c :: cs)
  | .unit n :: .unit m :: rest =>
    if 0xd800 ≤ n ∧ n ≤ 0xdbff then
      if 0xdc00 ≤ m ∧ m ≤ 0xdfff then
        (joinPieces? rest).map (Char.ofNat (0x10000 + (n - 0xd800) * 0x400 + (m - 0xdc00)) :: ·)
      else none
    else if 0xdc00 ≤ n ∧ n ≤ 0xdfff then none
    else (joinPieces? (.unit m :: rest)).map (Char.ofNat n :: ·)

/-- The number of an integer literal. -/
def integer? (dialect : Dialect) (n : Int) : Option Json :=
  if dialect.machineNumbers && !fits64 n then
    let x := Binary64.ofInt n
    if x.isFinite then some (float x) else none
  else some (int n)

/-- The number with this literal: a minus or nothing, digits without a leading zero, then perhaps a point with digits and
an exponent. -/
def number? (dialect : Dialect) (cs : List Char) : Option Json :=
  let (negative, body) := match cs with
    | '-' :: rest => (true, rest)
    | _ => (false, cs)
  let whole := body.takeWhile Char.isDigit
  let rest := body.dropWhile Char.isDigit
  if whole = [] ∨ (whole.head? = some '0' ∧ whole.length ≠ 1) then none
  else match rest with
    | [] =>
      let n : Int := Numeral.ofDigits (whole.map Numeral.asciiDigit)
      integer? dialect (if negative then -n else n)
    | ['.'] => none
    | '.' :: c :: _ =>
      if c.isDigit then finite? (Numeral.unsignedDecimal? negative body) else none
    | _ => finite? (Numeral.unsignedDecimal? negative body)
where
  /-- The number as a value, when it exists and the dialect admits it. -/
  finite? (x : Option Binary64) : Option Json :=
    x.bind fun x => if dialect.machineNumbers && !x.isFinite then none else some (float x)

/-- The value of a bare word. -/
def word? (s : String) : Option Json :=
  if s = "null" then some null
  else if s = "true" then some (bool true)
  else if s = "false" then some (bool false)
  else none

/-- The characters that a number literal is made of. -/
def isNumberChar (c : Char) : Bool := c.isDigit || c = '-' || c = '+' || c = '.' || c = 'e' || c = 'E'

/-- The four blanks that may stand between tokens. -/
def isJsonBlank (c : Char) : Bool := c = ' ' || c = '\t' || c = '\n' || c = '\r'

/-- The token of one character. -/
def punctuation? (c : Char) : Option Token :=
  match c with
  | '[' => some .openArray
  | ']' => some .closeArray
  | '\x7b' => some .openObject
  | '\x7d' => some .closeObject
  | ',' => some .comma
  | ':' => some .colon
  | _ => none

/-- The tokens of a text; `fuel` bounds their number together with that of the blanks. -/
def tokensWith? (dialect : Dialect) : Nat → List Char → Option (List Token)
  | _, [] => some []
  | 0, _ :: _ => none
  | fuel + 1, c :: rest =>
    if isJsonBlank c then tokensWith? dialect fuel rest
    else match punctuation? c with
    | some token => (tokensWith? dialect fuel rest).map (token :: ·)
    | none =>
      if c = '"' then do
        let (pieces, after) ← pieces? rest
        let text ← joinPieces? pieces
        let tokens ← tokensWith? dialect fuel after
        return .atom (str (String.ofList text)) :: tokens
      else if isNumberChar c then do
        let value ← number? dialect ((c :: rest).takeWhile isNumberChar)
        let tokens ← tokensWith? dialect fuel ((c :: rest).dropWhile isNumberChar)
        return .atom value :: tokens
      else do
        let value ← word? (String.ofList ((c :: rest).takeWhile Char.isAlpha))
        let tokens ← tokensWith? dialect fuel ((c :: rest).dropWhile Char.isAlpha)
        return .atom value :: tokens

/-- The tokens of a text. -/
def tokens? (dialect : Dialect) (cs : List Char) : Option (List Token) := tokensWith? dialect cs.length cs

/-! ## The machine -/

/-- A container that is still open: the items of an array, last first, or the members of an object. -/
inductive Frame where
  | items (reversed : List Json)
  | members (done : List (String × Json))
  | member (done : List (String × Json)) (key : String)

/-- What the machine expects next. -/
inductive Expect where
  | value
  | firstItem
  | firstKey
  | key
  | colon (key : String)
  | afterValue (value : Json)

/-- One more container may be opened. -/
def mayOpen (dialect : Dialect) (frames : List Frame) : Bool :=
  match dialect.maxDepth with
  | none => true
  | some limit => decide (frames.length < limit)

/-- One token, where a value may start. -/
def startValue? (dialect : Dialect) (token : Token) (frames : List Frame) : Option (Expect × List Frame) :=
  match token with
  | .atom v => some (.afterValue v, frames)
  | .openArray => if mayOpen dialect frames then some (.firstItem, .items [] :: frames) else none
  | .openObject => if mayOpen dialect frames then some (.firstKey, .members [] :: frames) else none
  | _ => none

/-- The key of the next member. -/
def startKey? (token : Token) (frames : List Frame) : Option (Expect × List Frame) :=
  match token with
  | .atom (.str key) => some (.colon key, frames)
  | _ => none

/-- One step of the machine. -/
def step? (dialect : Dialect) (expect : Expect) (frames : List Frame) (token : Token) : Option (Expect × List Frame) :=
  match expect with
  | .value => startValue? dialect token frames
  | .firstItem =>
    match token, frames with
    | .closeArray, .items [] :: frames => some (.afterValue (arr []), frames)
    | _, _ => startValue? dialect token frames
  | .firstKey =>
    match token, frames with
    | .closeObject, .members [] :: frames => some (.afterValue (obj []), frames)
    | _, _ => startKey? token frames
  | .key => startKey? token frames
  | .colon key =>
    match token, frames with
    | .colon, .members done :: frames => some (.value, .member done key :: frames)
    | _, _ => none
  | .afterValue v =>
    match token, frames with
    | .comma, .items xs :: frames => some (.value, .items (v :: xs) :: frames)
    | .closeArray, .items xs :: frames => some (.afterValue (arr (v :: xs).reverse), frames)
    | .comma, .member done key :: frames => some (.key, .members (setMember done key v) :: frames)
    | .closeObject, .member done key :: frames => some (.afterValue (obj (setMember done key v)), frames)
    | _, _ => none

/-- Runs the machine over the tokens; the value is there when all containers are closed at the end. -/
def run? (dialect : Dialect) : Expect → List Frame → List Token → Option Json
  | .afterValue v, [], [] => some v
  | _, _, [] => none
  | expect, frames, token :: rest =>
    match step? dialect expect frames token with
    | some (expect, frames) => run? dialect expect frames rest
    | none => none

/-- The value that a text stands for. -/
def read? (dialect : Dialect) (s : String) : Option Json := (tokens? dialect s.toList).bind (run? dialect .value [])

/-- The value that the bytes of a file stand for; they have to be well-formed UTF-8. -/
def readBytes? (dialect : Dialect) (bytes : ByteArray) : Option Json := (String.fromUTF8? bytes).bind (read? dialect)

end Json

end TokenForest
