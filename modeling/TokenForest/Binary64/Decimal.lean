import TokenForest.Binary64

/-!
# The shortest decimal of a binary64 number

The digits written for a finite number are the fewest that read back to it. They are found by trying grids of one,
two, … seventeen significant digits and testing the two grid points around the exact value; what is selected is tested
by reading it back, so it reads back whatever the search did. How the digits are laid out is the business of a
`Layout`, a record of the decisions of one output format.
-/

namespace TokenForest

namespace Binary64

/-! ## Digits -/

/-- A positive decimal `digits * 10 ^ exponent`. -/
structure Decimal where
  digits : Nat
  exponent : Int
  deriving DecidableEq, Repr

namespace Decimal

/-- The count of units nearest to the decimal. -/
def nearest (d : Decimal) : Nat :=
  match d.exponent with
  | .ofNat e => nearestUnits (d.digits * Nat.pow 10 e * unitsPerOne) 1
  | .negSucc e => nearestUnits (d.digits * unitsPerOne) (Nat.pow 10 (e + 1))

/-- The decimal without its final zeros; `fuel` bounds how many are dropped. -/
def dropZeros : Nat → Decimal → Decimal
  | 0, d => d
  | fuel + 1, d =>
    if d.digits ≠ 0 ∧ d.digits % 10 = 0 then dropZeros fuel ⟨d.digits / 10, d.exponent + 1⟩ else d

/-- The exact value of a count of units, which has a finite decimal expansion. -/
def exact (n : Nat) : Decimal := ⟨n * Nat.pow 5 1074, -1074⟩

/-- `n / den` of `n` units over `10 ^ exponent`, as numerator and denominator. -/
def scaled (n : Nat) (exponent : Int) : Nat × Nat :=
  match exponent with
  | .ofNat e => (n, unitsPerOne * Nat.pow 10 e)
  | .negSucc e => (n * Nat.pow 10 (e + 1), unitsPerOne)

/-- The exponent of the first significant digit of `n` units: an estimate from the binary logarithm, put right by one
comparison on either side. -/
def leadingExponent (n : Nat) : Int :=
  let estimate := ((n.log2 : Int) - 1074) * 30103 / 100000
  let atLeast (e : Int) : Bool := let (num, den) := scaled n e; decide (den ≤ num)
  if atLeast (estimate + 1) then estimate + 1
  else if atLeast estimate then estimate
  else estimate - 1

/-- The point of the grid of `count` significant digits that reads back to `n` units: of the two points around the exact
value the nearer one, the even one on a tie. -/
def onGrid? (n : Nat) (leading : Int) (count : Nat) : Option Decimal :=
  let exponent := leading - (count : Int) + 1
  let (num, den) := scaled n exponent
  let below : Decimal := ⟨num / den, exponent⟩
  let above : Decimal := ⟨num / den + 1, exponent⟩
  let nearer := if roundHalfEven num den = below.digits then [below, above] else [above, below]
  nearer.find? (fun d => decide (d.nearest = n))

/-- The shortest decimal that reads back to `n` units, the nearest to the exact value among those. -/
def shortest (n : Nat) : Decimal :=
  let leading := leadingExponent n
  let found := ((List.range 17).map (· + 1)).findSome? (onGrid? n leading)
  dropZeros 20 (found.getD (exact n))

end Decimal

/-! ## Layout -/

/-- The layout decisions of one output format for decimals. -/
structure Layout where
  /-- The least exponent of the first digit that is written without an exponent. -/
  lowest : Int
  /-- The greatest exponent of the first digit that is written without an exponent. -/
  highest : Int
  /-- A positive exponent has a plus sign. -/
  plusSign : Bool
  /-- The least number of digits of an exponent. -/
  exponentWidth : Nat
  deriving DecidableEq, Repr

namespace Layout

/-- The text of an exponent with its sign. -/
def exponentText (f : Layout) (e : Int) : String :=
  let digits := toString e.natAbs
  let padded := String.ofList (List.replicate (f.exponentWidth - digits.length) '0') ++ digits
  (if e < 0 then "-" else if f.plusSign then "+" else "") ++ padded

/-- The text of a positive decimal: always with a point or an exponent. -/
def decimalText (f : Layout) (d : Decimal) : String :=
  let digits := (toString d.digits).toList
  let count := digits.length
  let leading := d.exponent + (count : Int) - 1
  if f.lowest ≤ leading ∧ leading ≤ f.highest then
    let point := leading + 1
    if point ≤ 0 then
      "0." ++ String.ofList (List.replicate (-point).toNat '0' ++ digits)
    else if (count : Int) ≤ point then
      String.ofList (digits ++ List.replicate (point - count).toNat '0') ++ ".0"
    else
      String.ofList (digits.take point.toNat ++ '.' :: digits.drop point.toNat)
  else
    let mantissa := match digits with
      | [] => ""
      | [c] => String.ofList [c]
      | c :: rest => String.ofList (c :: '.' :: rest)
    mantissa ++ "e" ++ f.exponentText leading

/-- The text of a finite number. Infinities and not-a-number are written by their names. -/
def text (f : Layout) : Binary64 → String
  | finite u _ =>
    if u = 0 then "0.0"
    else (if u < 0 then "-" else "") ++ f.decimalText (Decimal.shortest u.natAbs)
  | negZero => "-0.0"
  | posInf => "inf"
  | negInf => "-inf"
  | nan => "nan"

/-- Numbers in messages: positional from `0.0001` to below `10 ^ 16`, and a signed exponent of at least two digits. -/
def message : Layout := ⟨-4, 15, true, 2⟩

/-- Numbers in files: positional from `0.00001` to below `10 ^ 16`, and a signed exponent without padding. -/
def file : Layout := ⟨-5, 15, true, 1⟩

end Layout

/-- The number as messages show it. -/
def text (x : Binary64) : String := Layout.message.text x

end Binary64

end TokenForest
