import TokenForest.Binary64.Aggregate
import TokenForest.Proofs.Binary64.RelativeError

/-!
# Compensated sums

The compensated sum of four numbers that are not negative is so close to their exact sum that a tolerance of a millionth does not see
the difference, or it is infinite. The error that is carried along is itself rounded, but it is small against the total at every step.
-/

namespace TokenForest

namespace Binary64

variable {x : Binary64} {exact slack : Int} {state : Binary64 × Binary64}

/-- The sum has left the finite numbers, and so has its error. -/
def Overflowed (state : Binary64 × Binary64) : Prop := state.1 = posInf ∧ state.2.isFinite = false

/-- The state of a compensated sum follows the exact sum: the total is close to it, and the error is small. -/
structure Follows (exact slack : Int) (state : Binary64 × Binary64) : Prop where
  finite : state.1.isFinite = true ∧ state.2.isFinite = true
  nonneg : 0 ≤ state.1.units
  total : 2 ^ 53 * ((state.1.units - exact).natAbs : Int) ≤ slack
  error : 2 ^ 53 * (state.2.units.natAbs : Int) ≤ slack

/-- What was lost of a sum when it was rounded, as the difference of the larger term, the rounded sum and the smaller term. -/
theorem lost_small {a b : Binary64} (ha : a.isFinite = true) (hb : b.isFinite = true) (ha0 : 0 ≤ a.units) (hb0 : 0 ≤ b.units)
    (hnext : (a + b).isFinite = true) : (a - (a + b) + b).isFinite = true ∧
      2 ^ 53 * ((a - (a + b) + b).units.natAbs : Int) ≤ 4 * (a.units + b.units) := by
  have hsum := add_relative ha hb hnext
  have hdiff := isFinite_sub ha hnext hnext (by omega)
  have hrounded := sub_relative ha hnext hdiff
  have hlost := isFinite_add hdiff hb hnext (by omega)
  have hrest := add_relative hdiff hb hlost
  exact ⟨hlost, by omega⟩

/-- The rounded total and the error after one step, whichever of the two terms is the larger one. -/
theorem compensate_eq (total error x : Binary64) : ∃ lost, (lost = total - (total + x) + x ∨ lost = x - (x + total) + total) ∧
    compensate (total, error) x = (total + x, error + lost) := by
  rw [compensate]
  split
  · exact ⟨_, Or.inl rfl, rfl⟩
  · refine ⟨_, Or.inr rfl, ?_⟩
    rw [Binary64.add_comm total x]

theorem isFinite_add_of_not (hx : x.isFinite = false) (y : Binary64) : (x + y).isFinite = false := by
  change (x.add y).isFinite = false
  cases x <;> cases y <;> first | rfl | simp [isFinite] at hx

/-- A sum that left the finite numbers stays outside. -/
theorem Overflowed.compensate (h : Overflowed state) (hx : x.isFinite = true) : Overflowed (compensate state x) := by
  obtain ⟨total, error⟩ := state
  obtain ⟨htotal, herror⟩ := h
  simp only at htotal herror
  obtain ⟨lost, _, heq⟩ := compensate_eq total error x
  rw [heq, htotal]
  exact ⟨(add_infinite hx).2.1, isFinite_add_of_not herror lost⟩

/-- One step of a compensated sum. -/
theorem Follows.compensate (h : Follows exact slack state) (hslack : slack ≤ 1000 * exact) (hx : x.isFinite = true)
    (h0 : 0 ≤ x.units) : Overflowed (compensate state x) ∨
      Follows (exact + x.units) (slack + 16 * (exact + x.units)) (compensate state x) := by
  obtain ⟨total, error⟩ := state
  obtain ⟨⟨htotal, herror⟩, hnonneg, hclose, hsmall⟩ := h
  simp only at htotal herror hnonneg hclose hsmall
  obtain ⟨lost, hlost, heq⟩ := compensate_eq total error x
  rw [heq]
  rcases add_finite_or htotal hx (by omega) with hnext | hinf
  · right
    have hcomm := Binary64.add_comm total x
    have hspec : lost.isFinite = true ∧ 2 ^ 53 * (lost.units.natAbs : Int) ≤ 4 * (total.units + x.units) := by
      rcases hlost with rfl | rfl
      · exact lost_small htotal hx hnonneg h0 hnext
      · have hsame := lost_small hx htotal h0 hnonneg (hcomm ▸ hnext)
        rw [Int.add_comm x.units] at hsame
        exact hsame
    have hsum := add_relative htotal hx hnext
    have hkept := isFinite_add herror hspec.1 hnext (by omega)
    have hrounded := add_relative herror hspec.1 hkept
    exact ⟨⟨hnext, hkept⟩, by simp only; omega, by simp only; omega, by simp only; omega⟩
  · left
    refine ⟨hinf, ?_⟩
    have hnegative : lost = negInf := by
      rcases hlost with rfl | rfl
      · rw [hinf, (sub_infinite htotal).2.2.1, (add_infinite hx).2.2.2]
      · rw [Binary64.add_comm x total, hinf, (sub_infinite hx).2.2.1, (add_infinite htotal).2.2.2]
    have hinfinite : negInf.isFinite = false := rfl
    simp only
    rw [hnegative, Binary64.add_comm]
    exact isFinite_add_of_not hinfinite error

/-- One step, wherever the sum is. -/
theorem compensate_step (h : Overflowed state ∨ Follows exact slack state) (hslack : slack ≤ 1000 * exact)
    (hx : x.isFinite = true) (h0 : 0 ≤ x.units) : Overflowed (compensate state x) ∨
      Follows (exact + x.units) (slack + 16 * (exact + x.units)) (compensate state x) := by
  rcases h with h | h
  · exact Or.inl (h.compensate hx)
  · exact h.compensate hslack hx h0

/-- What a compensated sum with this state comes to. -/
def resultOf (state : Binary64 × Binary64) : Binary64 :=
  if state.2.isFinite && !state.2.sameValue 0 then state.1 + state.2 else state.1

theorem compensatedSum_eq (xs : List Binary64) : compensatedSum xs = resultOf (xs.foldl compensate (0, 0)) := rfl

theorem Overflowed.result (h : Overflowed state) : resultOf state = posInf := by
  rw [resultOf, h.2, h.1]
  rfl

theorem Follows.result (h : Follows exact slack state) (hslack : slack ≤ 1000 * exact) : resultOf state = posInf ∨
    (resultOf state).isFinite = true ∧ 2 ^ 53 * (((resultOf state).units - exact).natAbs : Int) ≤ 2 * slack + 2 * exact := by
  obtain ⟨⟨htotal, herror⟩, hnonneg, hclose, hsmall⟩ := h
  unfold resultOf
  split
  · rcases add_finite_or htotal herror (by omega) with hfinite | hinf
    · have hsum := add_relative htotal herror hfinite
      exact Or.inr ⟨hfinite, by omega⟩
    · exact Or.inl hinf
  · exact Or.inr ⟨htotal, by omega⟩

/-- Four steps from the empty sum. -/
theorem resultOf_near {a b c d : Binary64} (hstart : Follows 0 0 state)
    (h : ∀ x ∈ [a, b, c, d], x.isFinite = true ∧ 0 ≤ x.units) : resultOf ([a, b, c, d].foldl compensate state) = posInf ∨
      (resultOf ([a, b, c, d].foldl compensate state)).isFinite = true ∧
        2 ^ 53 * (((resultOf ([a, b, c, d].foldl compensate state)).units - (a.units + b.units + c.units + d.units)).natAbs : Int) ≤
          130 * (a.units + b.units + c.units + d.units) := by
  simp only [List.mem_cons, List.not_mem_nil, or_false, forall_eq_or_imp, forall_eq] at h
  obtain ⟨⟨ha, ha0⟩, ⟨hb, hb0⟩, ⟨hc, hc0⟩, hd, hd0⟩ := h
  have hfirst := compensate_step (Or.inr hstart) (by omega) ha ha0
  have hsecond := compensate_step hfirst (by omega) hb hb0
  have hthird := compensate_step hsecond (by omega) hc hc0
  have hlast := compensate_step hthird (by omega) hd hd0
  simp only [List.foldl_cons, List.foldl_nil]
  rcases hlast with hlast | hlast
  · exact Or.inl hlast.result
  · rcases hlast.result (by omega) with hinf | ⟨hfinite, hnear⟩
    · exact Or.inl hinf
    · exact Or.inr ⟨hfinite, by omega⟩

/-- The compensated sum of four finite numbers that are not negative is infinite or close to the exact sum. -/
theorem compensatedSum_near {a b c d : Binary64} (h : ∀ x ∈ [a, b, c, d], x.isFinite = true ∧ 0 ≤ x.units) :
    compensatedSum [a, b, c, d] = posInf ∨ (compensatedSum [a, b, c, d]).isFinite = true ∧
      2 ^ 53 * (((compensatedSum [a, b, c, d]).units - (a.units + b.units + c.units + d.units)).natAbs : Int) ≤
        130 * (a.units + b.units + c.units + d.units) := by
  have hzero : (0 : Binary64).units = 0 := by rw [zero_eq, units]
  have hstart : Follows 0 0 (0, 0) :=
    ⟨⟨isFinite_zero, isFinite_zero⟩, by simp [hzero], by simp [hzero], by simp [hzero]⟩
  rw [compensatedSum_eq]
  exact resultOf_near hstart h

end Binary64

end TokenForest
