import Mathlib.Algebra.Group.Int.Defs
import Mathlib.Algebra.GroupWithZero.Nat
import TokenForest.Binary64

/-!
# Numbers as exact values

Numbers that are given to six places, means of such numbers as they are without rounding in between, and ratios that are kept up to a
rounding.
-/

namespace TokenForest

namespace Binary64

/-- The number lies between 0 and 1 and is its own rounding to six places. -/
def Settled (x : Binary64) : Prop := x.inUnit = true ∧ x.roundSix = x

instance (x : Binary64) : Decidable x.Settled := inferInstanceAs (Decidable (x.inUnit = true ∧ x.roundSix = x))

/-- The millionths nearest to a number. -/
def millionths (x : Binary64) : Nat := roundHalfEven (x.units.natAbs * 1000000) unitsPerOne

/-- The exact mean of numbers of six places, rounded to six places, ties to the even digit. -/
def exactMean (xs : List Binary64) : Binary64 :=
  ofRatio false (roundHalfEven (xs.map millionths).sum xs.length * unitsPerOne) 1000000

/-- Two numbers are to each other as two others are, but for the rounding of both: the cross products differ by at most 2⁻⁵² of them,
or by one of the smallest units of the format. -/
def InRatio (x y x' y' : Binary64) : Prop :=
  2 ^ 52 * ((x'.units * y.units - y'.units * x.units).natAbs : Int) ≤
    x'.units * y.units + y'.units * x.units + 2 ^ 52 * (x.units + y.units)

end Binary64

end TokenForest
