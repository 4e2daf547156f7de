import TokenForest.Binary64
import TokenForest.Text.Characters

/-!
# Numbers written as text

Integers and decimal numbers as they may stand in a text field: white space around them, a sign, digits of any script,
and single underscores between digits.
-/

namespace TokenForest

namespace Numeral

/-- A sign in front, taken off: whether it is a minus, and the rest. -/
def splitSign : List Char → Bool × List Char
  | '-' :: rest => (true, rest)
  | '+' :: rest => (false, rest)
  | cs => (false, cs)

/-- The number with these decimal digits, the most significant first. -/
def ofDigits (digits : List Nat) : Nat := digits.foldl (fun n d => 10 * n + d) 0

/-- The values of one or more digits; a single underscore may stand between two of them. -/
def digitRun? : List Char → Option (List Nat)
  | [] => none
  | [c] => (Text.digitValue? c).map ([·])
  | c :: '_' :: rest => do
    let d ← Text.digitValue? c
    let ds ← digitRun? rest
    return d :: ds
  | c :: rest => do
    let d ← Text.digitValue? c
    let ds ← digitRun? rest
    return d :: ds

/-- Why a text is not read as an integer. -/
inductive IntegerFault where
  | malformed
  | tooLong (digits : Nat)
  deriving DecidableEq, Repr

/-- The greatest number of digits of an integer that is read from text. -/
def maxDigits : Nat := 4300

/-- The integer that a text stands for. -/
def readInteger (s : String) : Except IntegerFault Int :=
  let (negative, body) := splitSign (Text.trim Text.isBlank s.toList)
  match digitRun? body with
  | none => .error .malformed
  | some digits =>
    if maxDigits < digits.length then .error (.tooLong digits.length)
    else
      let n : Int := ofDigits digits
      .ok (if negative then -n else n)

/-! ## Decimal numbers -/

/-- The value of an ASCII digit. -/
def asciiDigit (c : Char) : Nat := c.toNat - '0'.toNat

/-- The exponent at the end of a decimal number: nothing, or a letter, a sign and digits. -/
def exponent? : List Char → Option Int
  | [] => some 0
  | c :: rest =>
    if c = 'e' ∨ c = 'E' then
      let (negative, digits) := splitSign rest
      if digits ≠ [] ∧ digits.all Char.isDigit then
        let n : Int := ofDigits (digits.map asciiDigit)
        some (if negative then -n else n)
      else none
    else none

/-- The digits after a point, if there is one, and what follows them. -/
def splitFraction : List Char → List Char × List Char
  | '.' :: rest => (rest.takeWhile Char.isDigit, rest.dropWhile Char.isDigit)
  | cs => ([], cs)

/-- An unsigned decimal number: digits with a point before, between or after them, then perhaps an exponent. -/
def unsignedDecimal? (negative : Bool) (cs : List Char) : Option Binary64 :=
  let whole := cs.takeWhile Char.isDigit
  let (fraction, rest) := splitFraction (cs.dropWhile Char.isDigit)
  if whole = [] ∧ fraction = [] then none
  else (exponent? rest).map fun e =>
    Binary64.ofDecimal negative (ofDigits ((whole ++ fraction).map asciiDigit)) (e - (fraction.length : Int))

/-- A decimal number in ASCII with a sign, or the name of an infinity or of not-a-number in any case. -/
def decimal? (cs : List Char) : Option Binary64 :=
  let (negative, body) := splitSign cs
  let name := String.ofList (body.map Text.lower)
  if name = "inf" ∨ name = "infinity" then some (if negative then .negInf else .posInf)
  else if name = "nan" then some .nan
  else unsignedDecimal? negative body

/-- The text without its underscores, each of which has to stand between two digits. -/
def dropUnderscores? : List Char → Option (List Char)
  | [] => some []
  | '_' :: _ => none
  | c :: '_' :: d :: rest =>
    if c.isDigit && d.isDigit then (dropUnderscores? (d :: rest)).map (c :: ·) else none
  | c :: rest => (dropUnderscores? rest).map (c :: ·)

/-- The ASCII digit of the same value in place of a digit of another script. -/
def asciiDigitOf (c : Char) : Char :=
  match Text.digitValue? c with
  | some d => Char.ofNat ('0'.toNat + d)
  | none => c

/-- The number that a text stands for. -/
def readDecimal? (s : String) : Option Binary64 :=
  (dropUnderscores? ((Text.trim Text.isBlank s.toList).map asciiDigitOf)).bind decimal?

end Numeral

end TokenForest
