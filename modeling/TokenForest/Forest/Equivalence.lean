import Mathlib.Data.List.Forall2
import Mathlib.Data.Set.Defs
import TokenForest.Binary64.Exact
import TokenForest.Forest.Merge

/-!
# Equivalent nodes

Classes that cover members so that the confidences of each lie near one another, and the least number of such classes. Equivalence of
nodes without classes: leaves that say the same and lie together in a scan of their confidences, and inner nodes that say the same over
equivalent children. And the conditions on the confidences of a forest under which merging it behaves well.
-/

namespace TokenForest

namespace Forest

/-! ## Covers by classes -/

/-- All confidences are finite. -/
def AllFinite (ms : List Member) : Prop := ∀ m ∈ ms, m.confidence.isFinite = true

/-- The second confidence lies no further above the first one than the tolerance and the slack, as the numbers of the format have it. -/
def Within (t low high : Binary64) : Prop := high - low ≤ t + toleranceSlack

/-- The same of the exact values. -/
def WithinExactly (t low high : Binary64) : Prop := high.units - low.units ≤ t.units + toleranceSlack.units

/-- Every member is in one of the classes, and the confidences of a class lie near one another. -/
structure Covers (near : Binary64 → Binary64 → Prop) (ms : List Member) (parts : List (List Member)) : Prop where
  holds : parts.flatten.Perm ms
  spans : ∀ k ∈ parts, ∀ a ∈ k, ∀ b ∈ k, near a.confidence b.confidence

/-- The member has the lowest confidence of its class. -/
def Lowest (k : List Member) (a : Member) : Prop := a ∈ k ∧ ∀ x ∈ k, a.confidence ≤ x.confidence

/-- Classes in ascending order that do not overlap, the lowest confidences of any two of them further apart than what is near, and no
fewer than these cover the members. -/
structure LeastCover (near : Binary64 → Binary64 → Prop) (ms : List Member) (parts : List (List Member)) : Prop
    extends Covers near ms parts where
  nonempty : ∀ k ∈ parts, k ≠ []
  ascending : ∀ k ∈ parts, k.Pairwise (fun a b => a.confidence ≤ b.confidence)
  disjoint : parts.Pairwise (fun k k' => ∀ a ∈ k, ∀ b ∈ k', a.confidence < b.confidence)
  apart : parts.Pairwise (fun k k' => ∀ a b, Lowest k a → Lowest k' b → ¬near a.confidence b.confidence)
  fewest : ∀ other, Covers near ms other → parts.length ≤ other.length

/-- No difference of two confidences passes the test of a scan by the rounding of its two sides alone. -/
def ComparesExactly (t : Binary64) (ms : List Member) : Prop :=
  ∀ a ∈ ms, ∀ b ∈ ms, Within t a.confidence b.confidence → WithinExactly t a.confidence b.confidence

instance (t : Binary64) (ms : List Member) : Decidable (ComparesExactly t ms) :=
  inferInstanceAs (Decidable (∀ a ∈ ms, ∀ b ∈ ms, b.confidence - a.confidence ≤ t + toleranceSlack →
    b.confidence.units - a.confidence.units ≤ t.units + toleranceSlack.units))

/-! ## Scans -/

/-- The classes that a scan of ascending confidences makes: a class starts at the first confidence left and takes those behind it
that lie within the tolerance of it. -/
def scan (t : Binary64) : List Binary64 → List (List Binary64)
  | [] => []
  | a :: rest =>
    (a :: rest.takeWhile (fun c => decide (c - a ≤ t + toleranceSlack))) ::
      scan t (rest.dropWhile (fun c => decide (c - a ≤ t + toleranceSlack)))
termination_by values => values.length
decreasing_by
  have := (List.dropWhile_sublist (fun c => decide (c - a ≤ t + toleranceSlack)) (l := rest)).length_le
  simp only [List.length_cons]
  omega

/-- Numbers in ascending order. -/
def ascending (values : List Binary64) : List Binary64 := values.mergeSort (fun a b => decide (a ≤ b))

namespace Member

/-- The confidence of a member as a value: the two zeros are one. -/
def value (m : Member) : Binary64 := m.confidence.dropZeroSign

end Member

/-! ## Equivalence -/

/-- What a node says apart from its name, its place and its confidence. -/
def content (f : Forest) (i : Nat) : NodeKind × String × Intent × Option (String × String) :=
  let info := (f.node i).info
  (info.kind, info.label, info.intent, info.lexical)

/-- The leaves that can be reached and say what a node says. -/
def leavesLike (f : Forest) (i : Nat) : List Nat :=
  f.walk.filter (fun j => decide (f.children j = [] ∧ f.content j = f.content i))

/-- The confidence of a node as a value: the two zeros are one. -/
def value (f : Forest) (i : Nat) : Binary64 := (f.confidence i).dropZeroSign

/-- A scan of the confidences of the leaves that say what a leaf says puts the leaf and another one into one class. -/
def Together (f : Forest) (t : Binary64) (i j : Nat) : Prop :=
  ∃ k ∈ scan t (ascending ((f.leavesLike i).map f.value)), f.value i ∈ k ∧ f.value j ∈ k

/-- The nodes are equivalent: leaves that say the same and lie together in the scan, or inner nodes that say the same over
children that are equivalent one by one. -/
inductive Equivalent (f : Forest) (t : Binary64) : Nat → Nat → Prop where
  | leaf {i j : Nat} (hi : f.children i = []) (hj : f.children j = []) (hsame : f.content i = f.content j)
      (htogether : f.Together t i j) : Equivalent f t i j
  | inner {i j : Nat} (hi : f.children i ≠ []) (hj : f.children j ≠ []) (hsame : f.content i = f.content j)
      (hchildren : List.Forall₂ (Equivalent f t) (f.children i) (f.children j)) : Equivalent f t i j

/-- The nodes that can be reached and are equivalent to a node. -/
def equivalents (f : Forest) (t : Binary64) (i : Nat) : Set Nat := {j | j ∈ f.walk ∧ f.Equivalent t i j}

/-- What a scan under the first tolerance puts into one class, a scan under the second one does not take apart. -/
def ScanKeepsTogether (f : Forest) (s t : Binary64) : Prop :=
  ∀ i ∈ f.walk, f.children i = [] → ∀ j ∈ f.leavesLike i, f.Together s i j → f.Together t i j

/-! ## Conditions -/

/-- The confidences of the leaves that can be reached are finite. -/
def LeavesFinite (f : Forest) : Prop := ∀ i ∈ f.walk, f.children i = [] → (f.confidence i).isFinite = true

instance (f : Forest) : Decidable f.LeavesFinite :=
  inferInstanceAs (Decidable (∀ i ∈ f.walk, f.children i = [] → (f.confidence i).isFinite = true))

/-- The confidences of the leaves that can be reached are numbers, infinite ones included. -/
def LeavesNumbers (f : Forest) : Prop := ∀ i ∈ f.walk, f.children i = [] → f.confidence i ≠ .nan

instance (f : Forest) : Decidable f.LeavesNumbers :=
  inferInstanceAs (Decidable (∀ i ∈ f.walk, f.children i = [] → f.confidence i ≠ .nan))

/-- The confidences of the leaves that can be reached are settled. -/
def LeavesSettled (f : Forest) : Prop := ∀ i ∈ f.walk, f.children i = [] → (f.confidence i).Settled

instance (f : Forest) : Decidable f.LeavesSettled :=
  inferInstanceAs (Decidable (∀ i ∈ f.walk, f.children i = [] → (f.confidence i).Settled))

/-- Every inner node that can be reached has the least of the confidences of its children. -/
def MinOfChildren (f : Forest) : Prop := ∀ i ∈ f.walk, f.children i ≠ [] →
  (∀ c ∈ f.children i, f.confidence i ≤ f.confidence c) ∧ ∃ c ∈ f.children i, f.confidence c ≤ f.confidence i

instance (f : Forest) : Decidable f.MinOfChildren :=
  inferInstanceAs (Decidable (∀ i ∈ f.walk, f.children i ≠ [] →
    (∀ c ∈ f.children i, f.confidence i ≤ f.confidence c) ∧ ∃ c ∈ f.children i, f.confidence c ≤ f.confidence i))

/-- No difference of two confidences of leaves passes the test of a scan by the rounding of its two sides alone: what passes as
the numbers of the format passes as exact values. -/
def ScansExactly (f : Forest) (t : Binary64) : Prop :=
  ∀ i ∈ f.walk, f.children i = [] → ∀ j ∈ f.walk, f.children j = [] → f.confidence i - f.confidence j ≤ t + toleranceSlack →
    (f.confidence i).units - (f.confidence j).units ≤ t.units + toleranceSlack.units

instance (f : Forest) (t : Binary64) : Decidable (f.ScansExactly t) :=
  inferInstanceAs (Decidable (∀ i ∈ f.walk, f.children i = [] → ∀ j ∈ f.walk, f.children j = [] →
    f.confidence i - f.confidence j ≤ t + toleranceSlack →
      (f.confidence i).units - (f.confidence j).units ≤ t.units + toleranceSlack.units))

/-- No two nodes that can be reached have one name. -/
def DistinctNames (f : Forest) : Prop := ∀ i ∈ f.walk, ∀ j ∈ f.walk, (f.node i).info.id = (f.node j).info.id → i = j

instance (f : Forest) : Decidable f.DistinctNames :=
  inferInstanceAs (Decidable (∀ i ∈ f.walk, ∀ j ∈ f.walk, (f.node i).info.id = (f.node j).info.id → i = j))

/-- Every node that can be reached is one that can be made by hand: a terminal owns nothing. -/
def Checked (f : Forest) : Prop := ∀ i ∈ f.walk, checkNode (f.node i).info (f.children i) = .ok ()

instance (f : Forest) : Decidable f.Checked :=
  inferInstanceAs (Decidable (∀ i ∈ f.walk, checkNode (f.node i).info (f.children i) = .ok ()))

/-- The forest with these roots. -/
def reroot (f : Forest) (roots : List Nat) : Forest := { f with roots }

end Forest

end TokenForest
