import Mathlib.Algebra.GroupWithZero.Nat
import Mathlib.Data.List.Forall2
import TokenForest.Binary64.Aggregate
import TokenForest.Proofs.Binary64.RelativeError

/-!
# Pairwise sums

Every rounded addition of numbers that are not negative loses at most 2⁻⁵³ of the exact sum. So a sum loses as many of these parts as
additions stand above a term of it, at most: the terms are in a tree of additions, and a pairwise sum is a tree of small depth.
-/

namespace TokenForest

namespace Binary64

variable {x y : Binary64} {xs ys : List Binary64} {depth depth' exact exact' : Nat}

/-- The number is a rounded sum, or infinite, and falls below the exact sum by at most this many parts of 2⁻⁵³ of it. -/
def Loses (depth exact : Nat) (x : Binary64) : Prop :=
  x = posInf ∨ x.isFinite = true ∧ ∃ n : Nat, x.units = n ∧ 2 ^ 53 * exact ≤ 2 ^ 53 * n + depth * exact

/-- The exact sum of numbers, in units. -/
def exactTotal (xs : List Binary64) : Nat := (xs.map (·.units.natAbs)).sum

theorem exactTotal_cons (x : Binary64) (xs : List Binary64) : exactTotal (x :: xs) = x.units.natAbs + exactTotal xs := by
  rw [exactTotal, List.map_cons, List.sum_cons]
  rfl

theorem exactTotal_append (xs ys : List Binary64) : exactTotal (xs ++ ys) = exactTotal xs + exactTotal ys := by
  rw [exactTotal, List.map_append, List.sum_append]
  rfl

/-- All numbers are finite and not negative. -/
def Nonneg (xs : List Binary64) : Prop := ∀ x ∈ xs, x.isFinite = true ∧ 0 ≤ x.units

theorem Nonneg.take (h : Nonneg xs) (k : Nat) : Nonneg (xs.take k) := fun x hx => h x (List.mem_of_mem_take hx)

theorem Nonneg.drop (h : Nonneg xs) (k : Nat) : Nonneg (xs.drop k) := fun x hx => h x (List.mem_of_mem_drop hx)

namespace Loses

theorem mono (h : Loses depth exact x) (hle : depth ≤ depth') : Loses depth' exact x := by
  rcases h with hinf | ⟨hfinite, n, hn, hloss⟩
  · exact Or.inl hinf
  · have hmul := Nat.mul_le_mul_right exact hle
    exact Or.inr ⟨hfinite, n, hn, by omega⟩

/-- A term loses nothing. -/
theorem self (h : x.isFinite = true ∧ 0 ≤ x.units) : Loses 0 x.units.natAbs x :=
  Or.inr ⟨h.1, x.units.natAbs, by omega, by omega⟩

theorem zero : Loses 0 0 0 := Or.inr ⟨isFinite_zero, 0, by rw [zero_eq, units]; rfl, by omega⟩

/-- An addition loses one part more. -/
theorem add (h : Loses depth exact x) (h' : Loses depth exact' y) : Loses (depth + 1) (exact + exact') (x + y) := by
  rcases h with rfl | ⟨hx, n, hn, hloss⟩
  · rcases h' with rfl | ⟨hy, _⟩
    · exact Or.inl rfl
    · exact Or.inl (add_infinite hy).2.1
  · rcases h' with rfl | ⟨hy, m, hm, hloss'⟩
    · exact Or.inl (add_infinite hx).1
    · have hexact : x.units + y.units = ((n + m : Nat) : Int) := by rw [hn, hm, Int.natCast_add]
      rcases add_finite_or hx hy (by omega) with hfinite | hinf
      · have hrelative := add_relative hx hy hfinite
        rw [hexact, Int.natAbs_natCast] at hrelative
        refine Or.inr ⟨hfinite, (x + y).units.natAbs, by omega, ?_⟩
        rw [Nat.mul_add, Nat.add_mul, Nat.one_mul, Nat.mul_add]
        omega
      · exact Or.inl hinf

end Loses

/-! ## One by one -/

theorem sumFrom_loses (hx : Loses depth exact x) (h : Nonneg xs) : Loses (depth + xs.length) (exact + exactTotal xs) (sumFrom x xs) := by
  induction xs generalizing x depth exact with
  | nil => exact hx
  | cons y ys ih =>
    obtain ⟨hy, hys⟩ := List.forall_mem_cons.1 h
    have hadded := hx.add ((Loses.self hy).mono (Nat.zero_le depth))
    have hrest := ih hadded hys
    rw [exactTotal_cons, ← Nat.add_assoc]
    exact hrest.mono (by rw [List.length_cons]; omega)

theorem sumFrom_zero_loses (h : Nonneg xs) : Loses xs.length (exactTotal xs) (sumFrom 0 xs) := by
  have hsum := sumFrom_loses Loses.zero h
  rwa [Nat.zero_add, Nat.zero_add] at hsum

/-! ## Strands -/

/-- Strands that fall below their exact sums by at most this many parts. -/
def StrandsLose (depth : Nat) (exacts : List Nat) (strands : List Binary64) : Prop := List.Forall₂ (Loses depth) exacts strands

theorem strandsLose_self (h : Nonneg xs) : StrandsLose 0 (xs.map (·.units.natAbs)) xs := by
  unfold StrandsLose
  rw [List.forall₂_map_left_iff, List.forall₂_same]
  exact fun x hx => Loses.self (h x hx)

/-- A block that is added to strands of its length. -/
theorem addStrands_loses {exacts : List Nat} (h : StrandsLose depth exacts xs) (hys : Nonneg ys) (hlength : ys.length = xs.length) :
    ∃ exacts' : List Nat, exacts'.sum = exacts.sum + exactTotal ys ∧ StrandsLose (depth + 1) exacts' (addStrands xs ys) := by
  induction h generalizing ys with
  | nil =>
    cases List.eq_nil_of_length_eq_zero hlength
    exact ⟨[], rfl, .nil⟩
  | @cons exact x exacts xs hx _ ih =>
    obtain ⟨y, ys, rfl⟩ := List.exists_cons_of_length_pos (by rw [hlength]; exact Nat.succ_pos _)
    obtain ⟨hy, hrest⟩ := List.forall_mem_cons.1 hys
    obtain ⟨exacts', hsum, hlose⟩ := ih hrest (Nat.succ.inj hlength)
    refine ⟨(exact + y.units.natAbs) :: exacts', ?_, .cons (hx.add ((Loses.self hy).mono (Nat.zero_le depth))) hlose⟩
    rw [List.sum_cons, List.sum_cons, hsum, exactTotal_cons]
    omega

/-- Eight strands are added as a tree. -/
theorem sumEight_loses {exacts : List Nat} (h : StrandsLose depth exacts xs) (hlength : xs.length = 8) :
    Loses (depth + 3) exacts.sum (sumEight xs) := by
  match xs, hlength, h with
  | [_, _, _, _, _, _, _, _], _, .cons ha (.cons hb (.cons hc (.cons hd (.cons he (.cons hf (.cons hg (.cons hh .nil))))))) =>
    have htree := ((ha.add hb).add (hc.add hd)).add ((he.add hf).add (hg.add hh))
    simp only [List.sum_cons, List.sum_nil, Nat.add_zero]
    simp only [← Nat.add_assoc] at htree ⊢
    exact htree

theorem length_addStrands (h : ys.length = xs.length) : (addStrands xs ys).length = xs.length := by
  unfold addStrands
  rw [List.length_zipWith, h, Nat.min_self]

/-- Blocks are added to the strands, then the strands, then the rest. -/
theorem strandSum_loses {exacts : List Nat} (fuel : Nat) (h : StrandsLose depth exacts xs) (hlength : xs.length = 8) (hys : Nonneg ys) :
    Loses (depth + 3 + ys.length) (exacts.sum + exactTotal ys) (strandSum fuel xs ys) := by
  induction fuel generalizing depth exacts xs ys with
  | zero => exact sumFrom_loses (sumEight_loses h hlength) hys
  | succ fuel ih =>
    rw [strandSum]
    split
    · exact sumFrom_loses (sumEight_loses h hlength) hys
    · rename_i hblock
      have hblockLength : (ys.take 8).length = 8 := by
        rw [List.length_take]
        omega
      obtain ⟨exacts', hsum, hlose⟩ := addStrands_loses h (hys.take 8) (hblockLength.trans hlength.symm)
      have hrest := ih hlose ((length_addStrands (hblockLength.trans hlength.symm)).trans hlength) (hys.drop 8)
      have htotal : exactTotal ys = exactTotal (ys.take 8) + exactTotal (ys.drop 8) := by
        rw [← exactTotal_append, List.take_append_drop]
      rw [hsum, Nat.add_assoc exacts.sum, ← htotal] at hrest
      exact hrest.mono (by rw [List.length_drop]; omega)

/-! ## Halves -/

/-- A list that is not halved. -/
theorem pairwiseSumWith_of_short (fuel : Nat) (h : Nonneg xs) (hshort : xs.length ≤ 128) :
    Loses 131 (exactTotal xs) (pairwiseSumWith fuel xs) := by
  unfold pairwiseSumWith
  split
  · exact (sumFrom_zero_loses h).mono (by omega)
  · have hstrands : (xs.take 8).length = 8 := by
      rw [List.length_take]
      omega
    have hsum := strandSum_loses xs.length (strandsLose_self (h.take 8)) hstrands (h.drop 8)
    have htotal : exactTotal (xs.take 8) + exactTotal (xs.drop 8) = exactTotal xs := by
      rw [← exactTotal_append, List.take_append_drop]
    rw [← htotal]
    exact hsum.mono (by rw [List.length_drop]; omega)

/-- Every halving stands for one addition more. -/
theorem pairwiseSumWith_loses {halvings fuel : Nat} (h : Nonneg xs) (hlength : xs.length ≤ 112 * 2 ^ halvings + 16)
    (hfuel : halvings ≤ fuel) : Loses (131 + halvings) (exactTotal xs) (pairwiseSumWith fuel xs) := by
  induction halvings generalizing fuel xs with
  | zero => exact pairwiseSumWith_of_short fuel h (by omega)
  | succ halvings ih =>
    by_cases hshort : xs.length ≤ 128
    · exact (pairwiseSumWith_of_short fuel h hshort).mono (by omega)
    · obtain ⟨fuel, rfl⟩ := Nat.exists_eq_succ_of_ne_zero (by omega : fuel ≠ 0)
      rw [Nat.pow_succ] at hlength
      -- neither half is longer than what remains for the halvings that remain
      have hhalf : xs.length / 2 - xs.length / 2 % 8 ≤ 112 * 2 ^ halvings + 16 := by omega
      have hrest : xs.length - (xs.length / 2 - xs.length / 2 % 8) ≤ 112 * 2 ^ halvings + 16 := by omega
      generalize hcut : xs.length / 2 - xs.length / 2 % 8 = half at hhalf hrest
      have hfront := ih (h.take half) (by rw [List.length_take]; omega) (by omega : halvings ≤ fuel)
      have hback := ih (h.drop half) (by rw [List.length_drop]; omega) (by omega : halvings ≤ fuel)
      have htotal : exactTotal (xs.take half) + exactTotal (xs.drop half) = exactTotal xs := by
        rw [← exactTotal_append, List.take_append_drop]
      have hadded := hfront.add hback
      rw [htotal] at hadded
      unfold pairwiseSumWith
      rw [if_neg (by omega), if_neg hshort]
      simp only [hcut]
      exact hadded

/-- A pairwise sum has as many halvings as its length has binary digits, at most. -/
theorem pairwiseSum_loses (h : Nonneg xs) : Loses (131 + xs.length.log2) (exactTotal xs) (pairwiseSum xs) := by
  have hlength : xs.length < 2 ^ (xs.length.log2 + 1) := Nat.lt_log2_self
  rw [Nat.pow_succ] at hlength
  exact pairwiseSumWith_loses h (by omega) (Nat.log2_le_self _)

end Binary64

end TokenForest
