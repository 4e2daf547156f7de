import TokenForest.Forest

/-!
# Members of a level

A node of a level is compared with others by its confidence there, then by its place in the source, its size and its name.
Confidences that are numbers put the members into one order. Beside a confidence that is not a number, which is neither
below nor above another one, there is none, and the members are arranged by what the comparisons of an insertion find.
-/

namespace TokenForest

namespace Forest

/-! ## Comparison -/

/-- The key that chooses a representative: place in the source, then size, then name. -/
def rank (f : Forest) (i : Nat) : (Int × Int × Int) × Nat × String :=
  ((f.node i).info.orderKey, (f.tree i).size, (f.node i).info.id)

/-- Lexicographic order of keys. -/
def rankLe (a b : (Int × Int × Int) × Nat × String) : Bool :=
  if a.1 = b.1 then
    decide (a.2.1 < b.2.1) || (decide (a.2.1 = b.2.1) && decide (a.2.2 ≤ b.2.2))
  else Position.keyLe a.1 b.1

/-- A node of a level with the confidence it has there and its key. -/
structure Member where
  node : Nat
  confidence : Binary64
  key : (Int × Int × Int) × Nat × String

namespace Member

/-- Members in ascending order of confidence, then of their keys. -/
def le (a b : Member) : Bool :=
  if a.confidence < b.confidence then true
  else if b.confidence < a.confidence then false
  else rankLe a.key b.key

/-- The member comes before another one: its confidence is below the other, or equal to it with a smaller key. -/
def precedes (a b : Member) : Bool :=
  if a.confidence.sameValue b.confidence then !rankLe b.key a.key else decide (a.confidence < b.confidence)

/-- The first member by key, the earlier one on a tie. -/
def first (m : Member) (rest : List Member) : Member :=
  rest.foldl (fun best m => if rankLe best.key m.key then best else m) m

/-! ## Arrangement -/

/-- The members that continue a run in which each one follows its predecessor, and those behind the run. -/
def continueRun (follows : Member → Member → Bool) (last : Member) : List Member → List Member × List Member
  | [] => ([], [])
  | m :: rest =>
    if follows last m then
      let (run, left) := continueRun follows m rest
      (m :: run, left)
    else ([], m :: rest)

/-- The run at the front and the members behind it. A run is turned around when each of its members precedes the one
before it; in any other run none does. -/
def frontRun : List Member → List Member × List Member
  | a :: b :: rest =>
    if b.precedes a then
      let (run, left) := continueRun (fun x y => y.precedes x) b rest
      ((a :: b :: run).reverse, left)
    else
      let (run, left) := continueRun (fun x y => !y.precedes x) b rest
      (a :: b :: run, left)
  | members => (members, [])

/-- Puts a member among arranged ones: the half in which it goes on is the first one when it precedes the member in the
middle, and the second one otherwise. -/
def insertByHalves (m : Member) (arranged : List Member) : List Member :=
  let half := arranged.length / 2
  if h : half < arranged.length then
    let middle := arranged[half]
    if m.precedes middle then insertByHalves m (arranged.take half) ++ middle :: arranged.drop (half + 1)
    else arranged.take half ++ middle :: insertByHalves m (arranged.drop (half + 1))
  else [m]
termination_by arranged.length
decreasing_by
  · simp only [List.length_take]; omega
  · simp only [List.length_drop]; omega

/-- The members with those behind the front run inserted into it one by one. -/
def insertAll (members : List Member) : List Member :=
  let (run, left) := frontRun members
  left.foldl (fun arranged m => insertByHalves m arranged) run

/-- The members from the lowest confidence on. -/
def arrange (members : List Member) : List Member :=
  if members.any (fun m => decide (m.confidence = .nan)) then insertAll members else members.mergeSort le

end Member

end Forest

end TokenForest
