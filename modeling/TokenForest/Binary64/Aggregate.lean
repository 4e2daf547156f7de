import TokenForest.Binary64

/-!
# Sums and means of binary64 numbers

Rounded addition is not associative, so the order of a sum shows in its last digits. `compensatedSum` carries the
rounding error of every step beside the running total and adds it at the end; `pairwiseSum` adds halves of a long list
separately and short lists in eight interleaved strands.
-/

namespace TokenForest

namespace Binary64

/-! ## Compensated sums -/

/-- One step of a compensated sum: the rounded total and the error that its rounding made. -/
def compensate (state : Binary64 × Binary64) (x : Binary64) : Binary64 × Binary64 :=
  let (total, error) := state
  let next := total + x
  let lost := if abs x ≤ abs total then (total - next) + x else (x - next) + total
  (next, error + lost)

/-- The sum with the errors of its steps added back at the end, when they came to a finite number other than zero. -/
def compensatedSum (xs : List Binary64) : Binary64 :=
  let (total, error) := xs.foldl compensate (0, 0)
  if error.isFinite && !error.sameValue 0 then total + error else total

/-! ## Pairwise sums -/

/-- The sum from left to right, starting from an initial value. -/
def sumFrom (start : Binary64) (xs : List Binary64) : Binary64 := xs.foldl (· + ·) start

/-- The pointwise sum of two equally long lists. -/
def addStrands (xs ys : List Binary64) : List Binary64 := List.zipWith (· + ·) xs ys

/-- The sum of eight numbers as a balanced tree. -/
def sumEight : List Binary64 → Binary64
  | [a, b, c, d, e, f, g, h] => ((a + b) + (c + d)) + ((e + f) + (g + h))
  | xs => sumFrom 0 xs

/-- Adds blocks of eight to the strands while they last, then the strands as a tree, then what is left one by one.
`fuel` bounds the number of blocks. -/
def strandSum (fuel : Nat) (strands rest : List Binary64) : Binary64 :=
  match fuel with
  | 0 => sumFrom (sumEight strands) rest
  | fuel + 1 =>
    if rest.length < 8 then sumFrom (sumEight strands) rest
    else strandSum fuel (addStrands strands (rest.take 8)) (rest.drop 8)

/-- The pairwise sum: fewer than 8 numbers one by one, up to 128 in eight strands, more as two halves, the first of a
length divisible by 8. `fuel` bounds the number of halvings. -/
def pairwiseSumWith (fuel : Nat) (xs : List Binary64) : Binary64 :=
  if xs.length < 8 then sumFrom 0 xs
  else if xs.length ≤ 128 then strandSum xs.length (xs.take 8) (xs.drop 8)
  else match fuel with
    | 0 => sumFrom 0 xs
    | fuel + 1 =>
      let half := xs.length / 2 - xs.length / 2 % 8
      pairwiseSumWith fuel (xs.take half) + pairwiseSumWith fuel (xs.drop half)

/-- The pairwise sum of a list. -/
def pairwiseSum (xs : List Binary64) : Binary64 := pairwiseSumWith xs.length xs

/-- The pairwise sum over the number of terms. -/
def mean (xs : List Binary64) : Binary64 := pairwiseSum xs / ofInt xs.length

end Binary64

end TokenForest
