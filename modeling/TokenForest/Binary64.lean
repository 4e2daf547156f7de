/-!
# Binary64 numbers

The double-precision numbers with their exact values: a finite number is an integer count of units of `2 ^ -1074`, the
smallest positive number of the format. Every operation works on the exact values and rounds once, to the nearest
representable number with ties to the even neighbour, so the order of finite numbers is the order of integers and the
law of an operation is a law about integers.
-/

namespace TokenForest

/-- `n` units are the magnitude of a finite number: at most 53 significant bits, and below the overflow bound. -/
def Representable (n : Nat) : Prop := n.log2 < 2098 ∧ n % Nat.pow 2 (n.log2 - 52) = 0

instance (n : Nat) : Decidable (Representable n) := inferInstanceAs (Decidable (_ ∧ _))

theorem representable_zero : Representable 0 := by decide

/-- A double-precision number: a finite number other than negative zero, negative zero, an infinity or not-a-number. -/
inductive Binary64 where
  | finite (units : Int) (exact : Representable units.natAbs)
  | negZero
  | posInf
  | negInf
  | nan
  deriving DecidableEq, Repr

namespace Binary64

/-- The number of units in one. -/
def unitsPerOne : Nat := Nat.pow 2 1074

/-- The exact value of a finite number in units; zero for the others. -/
def units : Binary64 → Int
  | finite u _ => u
  | _ => 0

/-- The number is neither an infinity nor not-a-number. -/
def isFinite : Binary64 → Bool
  | finite _ _ => true
  | negZero => true
  | _ => false

/-- The sign of the number is minus; negative zero counts, not-a-number does not. -/
def isNegative : Binary64 → Bool
  | finite u _ => decide (u < 0)
  | negZero => true
  | negInf => true
  | _ => false

/-! ## Rounding -/

/-- The integer nearest to `num / den`, ties to the even one. -/
def roundHalfEven (num den : Nat) : Nat :=
  let quotient := num / den
  let rest := num % den
  if 2 * rest < den then quotient
  else if den < 2 * rest then quotient + 1
  else quotient + quotient % 2

/-- The count of units with at most 53 significant bits nearest to `num / den` units. -/
def nearestUnits (num den : Nat) : Nat :=
  let step := Nat.pow 2 ((num / den).log2 - 52)
  roundHalfEven num (den * step) * step

/-- The number with this sign and this count of units; an infinity when the count is not representable. -/
def ofMagnitude (negative : Bool) (n : Nat) : Binary64 :=
  if h : Representable n then
    if negative then
      if n = 0 then negZero else finite (-(n : Int)) (by rw [Int.natAbs_neg]; exact h)
    else finite (n : Int) h
  else if negative then negInf else posInf

/-- The number nearest to `num / den` units with this sign. -/
def ofRatio (negative : Bool) (num den : Nat) : Binary64 := ofMagnitude negative (nearestUnits num den)

/-- The number nearest to an integer count of units; the count zero gives positive zero. -/
def ofUnits (n : Int) : Binary64 := ofRatio (decide (n < 0)) n.natAbs 1

/-- The number nearest to an integer. -/
def ofInt (n : Int) : Binary64 := ofRatio (decide (n < 0)) (n.natAbs * unitsPerOne) 1

/-- The number nearest to `± digits * 10 ^ exponent`. An exponent that puts the value far outside the range of the
format is answered from its size alone. -/
def ofDecimal (negative : Bool) (digits : Nat) (exponent : Int) : Binary64 :=
  match exponent with
  | .ofNat e =>
    if digits = 0 then ofMagnitude negative 0
    else if 400 < e then (if negative then negInf else posInf)
    else ofRatio negative (digits * Nat.pow 10 e * unitsPerOne) 1
  | .negSucc e =>
    if digits.log2 + 400 < e then ofMagnitude negative 0
    else ofRatio negative (digits * unitsPerOne) (Nat.pow 10 (e + 1))

instance : OfScientific Binary64 where
  ofScientific digits negativeExponent exponent :=
    ofDecimal false digits (if negativeExponent then -(exponent : Int) else (exponent : Int))

instance (n : Nat) : OfNat Binary64 n := ⟨ofInt n⟩

instance : Inhabited Binary64 := ⟨finite 0 representable_zero⟩

/-! ## Order -/

/-- `x ≤ y` of the exact values; not-a-number is below and above nothing, and the two zeros are equal. -/
def le : Binary64 → Binary64 → Bool
  | nan, _ => false
  | _, nan => false
  | negInf, _ => true
  | _, posInf => true
  | posInf, _ => false
  | _, negInf => false
  | x, y => decide (x.units ≤ y.units)

/-- `x < y` of the exact values; false as soon as one side is not-a-number. -/
def lt : Binary64 → Binary64 → Bool
  | nan, _ => false
  | _, nan => false
  | _, negInf => false
  | posInf, _ => false
  | negInf, _ => true
  | _, posInf => true
  | x, y => decide (x.units < y.units)

instance : LE Binary64 := ⟨fun x y => x.le y = true⟩

instance : LT Binary64 := ⟨fun x y => x.lt y = true⟩

instance (x y : Binary64) : Decidable (x ≤ y) := inferInstanceAs (Decidable (x.le y = true))

instance (x y : Binary64) : Decidable (x < y) := inferInstanceAs (Decidable (x.lt y = true))

/-- The two numbers have the same value: the zeros agree, and not-a-number equals nothing. -/
def sameValue (x y : Binary64) : Bool := x.le y && y.le x

/-- The number with negative zero read as zero, so that finite numbers of the same value become equal. -/
def dropZeroSign : Binary64 → Binary64
  | negZero => 0
  | x => x

/-- The smaller of two numbers, the first one on a tie. -/
def min (x y : Binary64) : Binary64 := if y < x then y else x

/-- The larger of two numbers, the first one on a tie. -/
def max (x y : Binary64) : Binary64 := if x < y then y else x

/-- The number held to the interval from 0 to 1; not-a-number becomes 1. -/
def clampUnit (x : Binary64) : Binary64 := max 0 (min 1 x)

/-- The number lies in the interval from 0 to 1. -/
def inUnit (x : Binary64) : Bool := decide (0 ≤ x) && decide (x ≤ 1)

/-! ## Arithmetic -/

/-- The number with the other sign. -/
def neg : Binary64 → Binary64
  | finite u h => if u = 0 then negZero else finite (-u) (by rw [Int.natAbs_neg]; exact h)
  | negZero => 0
  | posInf => negInf
  | negInf => posInf
  | nan => nan

/-- The number without its sign. -/
def abs : Binary64 → Binary64
  | finite u h => finite u.natAbs (by rw [Int.natAbs_natCast]; exact h)
  | negZero => 0
  | posInf => posInf
  | negInf => posInf
  | nan => nan

/-- The rounded sum; a sum of exactly zero is positive unless both terms are negative zero. -/
def add : Binary64 → Binary64 → Binary64
  | nan, _ => nan
  | _, nan => nan
  | posInf, negInf => nan
  | negInf, posInf => nan
  | posInf, _ => posInf
  | _, posInf => posInf
  | negInf, _ => negInf
  | _, negInf => negInf
  | negZero, negZero => negZero
  | x, y => ofUnits (x.units + y.units)

/-- The rounded difference. -/
def sub (x y : Binary64) : Binary64 := add x (neg y)

/-- The rounded product; an infinity times zero is not-a-number. -/
def mul (x y : Binary64) : Binary64 :=
  let negative := x.isNegative != y.isNegative
  if x = nan ∨ y = nan then nan
  else if x.isFinite && y.isFinite then
    ofRatio negative (x.units.natAbs * y.units.natAbs) unitsPerOne
  else if x.isFinite && x.units = 0 || y.isFinite && y.units = 0 then nan
  else if negative then negInf else posInf

/-- The rounded quotient; a finite number over zero is an infinity, zero over zero is not-a-number. -/
def div (x y : Binary64) : Binary64 :=
  let negative := x.isNegative != y.isNegative
  if x = nan ∨ y = nan then nan
  else if x.isFinite && y.isFinite then
    if y.units = 0 then
      if x.units = 0 then nan else if negative then negInf else posInf
    else ofRatio negative (x.units.natAbs * unitsPerOne) y.units.natAbs
  else if x.isFinite then ofMagnitude negative 0
  else if y.isFinite then (if negative then negInf else posInf)
  else nan

instance : Neg Binary64 := ⟨neg⟩

instance : Add Binary64 := ⟨add⟩

instance : Sub Binary64 := ⟨sub⟩

instance : Mul Binary64 := ⟨mul⟩

instance : Div Binary64 := ⟨div⟩

/-- The exact value rounded to six decimal places, ties to the even digit, and read back as a number. The sign is kept,
also when the result is zero. -/
def roundSix : Binary64 → Binary64
  | finite u _ =>
    ofRatio (decide (u < 0)) (roundHalfEven (u.natAbs * 1000000) unitsPerOne * unitsPerOne) 1000000
  | x => x

/-- The integer part of a finite number, cut toward zero. -/
def truncate? (x : Binary64) : Option Int :=
  if x.isFinite then some (x.units.tdiv unitsPerOne) else none

/-- The number is a finite integer. -/
def isIntegral (x : Binary64) : Bool := x.isFinite && x.units % unitsPerOne = 0

end Binary64

end TokenForest
