import Mathlib.Algebra.Group.Nat.Defs
import TokenForest.SyntaxTree

/-!
# The order of binary64 numbers

Every number that is not not-a-number has a rank, an integer: its exact value in units, with the infinities beyond all finite
values. The order of numbers is the order of ranks, so facts about the order are facts about integers.
-/

namespace TokenForest

namespace Binary64

/-- The binary logarithm of a finite magnitude in units is below this one. -/
@[irreducible] def overflowExponent : Nat := 2098

/-- The rank of positive infinity: above the rank of every finite number. -/
def beyond : Int := ((2 ^ overflowExponent : Nat) : Int)

/-- The place of a number on the line of integers. -/
def rank : Binary64 → Int
  | finite u _ => u
  | negZero => 0
  | posInf => beyond
  | negInf => -beyond
  | nan => 0

/-- A number whose binary logarithm is below `k` is below `2 ^ k`, also when it is zero. -/
theorem lt_two_pow_of_log2_lt {n k : Nat} (h : n.log2 < k) : n < 2 ^ k := by
  by_cases h0 : n = 0
  · subst h0
    exact Nat.two_pow_pos k
  · exact (Nat.log2_lt h0).1 h

/-- A representable magnitude lies below the rank of infinity. -/
theorem natCast_lt_beyond {n : Nat} (h : Representable n) : (n : Int) < beyond := by
  have hn : n.log2 < overflowExponent := by
    unfold overflowExponent
    exact h.1
  exact Int.ofNat_lt.2 (lt_two_pow_of_log2_lt hn)

/-- A magnitude with too large a binary logarithm is not below the rank of infinity. -/
theorem beyond_le_natCast {n : Nat} (h : 2098 ≤ n.log2) : beyond ≤ (n : Int) := by
  have hn : overflowExponent ≤ n.log2 := by
    unfold overflowExponent
    exact h
  have h0 : n ≠ 0 := by
    rintro rfl
    simp at h
  exact Int.ofNat_le.2 ((Nat.le_log2 h0).1 hn)

theorem beyond_pos : 0 < beyond := natCast_lt_beyond representable_zero

/-- The exact value of a number lies between the ranks of the infinities. -/
theorem units_between (x : Binary64) : -beyond < x.units ∧ x.units < beyond := by
  have hpos := beyond_pos
  cases x with
  | finite u h =>
    have hu := natCast_lt_beyond h
    simp only [units]
    omega
  | _ => simp only [units]; omega

theorem rank_of_isFinite {x : Binary64} (h : x.isFinite = true) : x.rank = x.units := by
  cases x <;> first | rfl | simp [isFinite] at h

theorem ne_nan_of_isFinite {x : Binary64} (h : x.isFinite = true) : x ≠ nan := by
  rintro rfl
  simp [isFinite] at h

/-! ## Comparisons are comparisons of ranks -/

theorem le_iff (x y : Binary64) : x ≤ y ↔ x ≠ nan ∧ y ≠ nan ∧ x.rank ≤ y.rank := by
  have hx := units_between x
  have hy := units_between y
  have hpos := beyond_pos
  change x.le y = true ↔ _
  cases x <;> cases y <;> simp_all [le, rank, units] <;> first | omega | exact decide_eq_true_iff

theorem lt_iff (x y : Binary64) : x < y ↔ x ≠ nan ∧ y ≠ nan ∧ x.rank < y.rank := by
  have hx := units_between x
  have hy := units_between y
  have hpos := beyond_pos
  change x.lt y = true ↔ _
  cases x <;> cases y <;> simp_all [lt, rank, units] <;> first | omega | exact decide_eq_true_iff

protected theorem le_trans {x y z : Binary64} (h : x ≤ y) (h' : y ≤ z) : x ≤ z := by
  rw [le_iff] at *
  exact ⟨h.1, h'.2.1, Int.le_trans h.2.2 h'.2.2⟩

/-- Of two numbers, the one that is not below the other is at least it. -/
protected theorem not_lt {x y : Binary64} (hx : x ≠ nan) (hy : y ≠ nan) : ¬x < y ↔ y ≤ x := by
  rw [lt_iff, le_iff]
  simp only [hx, hy, ne_eq, not_false_eq_true, true_and]
  omega

/-- A number below a number of a finite value and above another one is finite itself. -/
theorem isFinite_of_between {a x b : Binary64} (ha : a.isFinite = true) (hb : b.isFinite = true) (h : a ≤ x)
    (h' : x ≤ b) : x.isFinite = true := by
  rw [le_iff] at h h'
  have h1 := units_between a
  have h2 := units_between b
  rw [rank_of_isFinite ha] at h
  rw [rank_of_isFinite hb] at h'
  cases x <;> simp_all [isFinite, rank] <;> omega

/-- Finite numbers are in the order of their exact values. -/
theorem le_iff_units {x y : Binary64} (hx : x.isFinite = true) (hy : y.isFinite = true) : x ≤ y ↔ x.units ≤ y.units := by
  rw [le_iff, rank_of_isFinite hx, rank_of_isFinite hy]
  exact and_iff_right (ne_nan_of_isFinite hx) |>.trans (and_iff_right (ne_nan_of_isFinite hy))

/-! ## The greater of two numbers -/

/-- The least of three numbers does not depend on which two are compared first. -/
theorem min_assoc {x y z : Binary64} (hx : x ≠ nan) (hy : y ≠ nan) (hz : z ≠ nan) : min (min x y) z = min x (min y z) := by
  have hlt : ∀ a b : Binary64, a ≠ nan → b ≠ nan → (a < b ↔ a.rank < b.rank) := by
    intro a b ha hb
    rw [lt_iff]
    exact ⟨fun h => h.2.2, fun h => ⟨ha, hb, h⟩⟩
  by_cases hyx : y < x
  · have hxyz : z < y → z < x := by
      rw [hlt z y hz hy, hlt z x hz hx]
      rw [hlt y x hy hx] at hyx
      omega
    by_cases hzy : z < y <;> simp [min, hyx, hzy, hxyz]
  · have hxyz : ¬z < y → ¬z < x := by
      rw [hlt z y hz hy, hlt z x hz hx]
      rw [hlt y x hy hx] at hyx
      omega
    by_cases hzy : z < y <;> simp [min, hyx, hzy, hxyz]

theorem max_eq (a b : Binary64) : max a b = a ∨ max a b = b := by
  unfold max
  split
  · exact Or.inr rfl
  · exact Or.inl rfl

theorem le_max_left {a : Binary64} (b : Binary64) (ha : a ≠ nan) : a ≤ max a b := by
  unfold max
  split
  · rename_i h
    rw [lt_iff] at h
    exact (le_iff a b).2 ⟨h.1, h.2.1, Int.le_of_lt h.2.2⟩
  · exact (le_iff a a).2 ⟨ha, ha, Int.le_refl _⟩

theorem le_max_right {a b : Binary64} (ha : a ≠ nan) (hb : b ≠ nan) : b ≤ max a b := by
  unfold max
  split
  · exact (le_iff b b).2 ⟨hb, hb, Int.le_refl _⟩
  · rename_i h
    exact (Binary64.not_lt ha hb).1 h

theorem max_ne_nan {a : Binary64} (b : Binary64) (ha : a ≠ nan) : max a b ≠ nan :=
  ((le_iff _ _).1 (le_max_left b ha)).2.1

/-- The greatest of some numbers is one of them, and none of them is above it. -/
theorem foldl_max {first : Binary64} {rest : List Binary64} (hall : ∀ x ∈ first :: rest, x ≠ nan) :
    rest.foldl max first ∈ first :: rest ∧ ∀ x ∈ first :: rest, x ≤ rest.foldl max first := by
  induction rest generalizing first with
  | nil => simpa using (le_iff first first).2 ⟨hall first (by simp), hall first (by simp), Int.le_refl _⟩
  | cons y rest ih =>
    have hfirst := hall first (by simp)
    have hy := hall y (by simp)
    have hmax := max_ne_nan y hfirst
    have hrest : ∀ x ∈ max first y :: rest, x ≠ nan := by
      intro x hx
      rcases List.mem_cons.1 hx with rfl | hx
      · exact hmax
      · exact hall x (by simp [hx])
    obtain ⟨hmem, hle⟩ := ih hrest
    have hgreatest := hle (max first y) (by simp)
    rw [List.foldl_cons]
    constructor
    · rcases List.mem_cons.1 hmem with hmem | hmem
      · rw [hmem]
        rcases max_eq first y with h | h <;> simp [h]
      · simp [hmem]
    · intro x hx
      rcases List.mem_cons.1 hx with rfl | hx
      · exact Binary64.le_trans (le_max_left y hfirst) hgreatest
      · rcases List.mem_cons.1 hx with rfl | hx
        · exact Binary64.le_trans (le_max_right hfirst hy) hgreatest
        · exact hle x (by simp [hx])

/-! ## The interval from zero to one -/

theorem zero_eq : (0 : Binary64) = finite 0 representable_zero := by
  change ofInt 0 = _
  simp [ofInt, ofRatio, nearestUnits, roundHalfEven, ofMagnitude, representable_zero]

theorem isFinite_zero : (0 : Binary64).isFinite = true := by
  rw [zero_eq]
  rfl

theorem inUnit_iff (x : Binary64) : x.inUnit = true ↔ 0 ≤ x ∧ x ≤ 1 := by
  simp [inUnit]

/-- The marks that scores are made of. -/
theorem inUnit_marks : (1 : Binary64).isFinite = true ∧
    ∀ x ∈ ([0, 0.1, 0.2, 0.4, 0.5, 0.8, 1] : List Binary64), x.inUnit = true := by
  decide +kernel

theorem isFinite_one : (1 : Binary64).isFinite = true := inUnit_marks.1

theorem inUnit_zero : (0 : Binary64).inUnit = true := inUnit_marks.2 0 (by simp)

theorem inUnit_one : (1 : Binary64).inUnit = true := inUnit_marks.2 1 (by simp)

theorem isFinite_of_inUnit {x : Binary64} (h : x.inUnit = true) : x.isFinite = true := by
  rw [inUnit_iff] at h
  exact isFinite_of_between isFinite_zero isFinite_one h.1 h.2

end Binary64

/-! ## The least of some numbers -/

namespace SyntaxTree

/-- The least of some confidences is one of them. -/
theorem least_mem (first : Binary64) (rest : List Binary64) : least first rest ∈ first :: rest := by
  induction rest generalizing first with
  | nil => simp [least]
  | cons x rest ih =>
    have h := ih (Binary64.min first x)
    simp only [least, List.foldl_cons, List.mem_cons] at h ⊢
    rcases h with h | h
    · rw [h, Binary64.min]
      split <;> simp
    · exact Or.inr (Or.inr h)

/-- The least of some numbers is not above any of them. -/
theorem least_le {first : Binary64} {rest : List Binary64} (hall : ∀ x ∈ first :: rest, x ≠ .nan) :
    ∀ x ∈ first :: rest, least first rest ≤ x := by
  induction rest generalizing first with
  | nil =>
    intro x hx
    rw [List.mem_singleton] at hx
    subst hx
    have hne := hall x (by simp)
    exact (Binary64.le_iff _ _).2 ⟨hne, hne, Int.le_refl _⟩
  | cons y rest ih =>
    have hfirst := hall first (by simp)
    have hy := hall y (by simp)
    -- the scan goes on with the smaller one of the first two
    have hmin : Binary64.min first y ≠ .nan ∧ Binary64.min first y ≤ first ∧ Binary64.min first y ≤ y := by
      unfold Binary64.min
      split
      · rename_i h
        rw [Binary64.lt_iff] at h
        exact ⟨hy, (Binary64.le_iff _ _).2 ⟨hy, hfirst, by omega⟩, (Binary64.le_iff _ _).2 ⟨hy, hy, Int.le_refl _⟩⟩
      · rename_i h
        exact ⟨hfirst, (Binary64.le_iff _ _).2 ⟨hfirst, hfirst, Int.le_refl _⟩, (Binary64.not_lt hy hfirst).1 h⟩
    have hothers : ∀ x ∈ Binary64.min first y :: rest, x ≠ .nan :=
      List.forall_mem_cons.2 ⟨hmin.1, fun x hx => hall x (by simp [hx])⟩
    have hrest := ih hothers
    have hleast : least first (y :: rest) ≤ Binary64.min first y := hrest _ (by simp)
    intro x hx
    rcases List.mem_cons.1 hx with rfl | hx
    · exact Binary64.le_trans hleast hmin.2.1
    · rcases List.mem_cons.1 hx with rfl | hx
      · exact Binary64.le_trans hleast hmin.2.2
      · exact hrest x (by simp [hx])

/-- The least of two lists of numbers is the smaller one of their least numbers. -/
theorem least_append {x y : Binary64} {xs ys : List Binary64} (hxs : ∀ z ∈ x :: xs, z ≠ .nan) (hys : ∀ z ∈ y :: ys, z ≠ .nan) :
    least x (xs ++ y :: ys) = Binary64.min (least x xs) (least y ys) := by
  have hfirst := hxs _ (least_mem x xs)
  have happend : least x (xs ++ y :: ys) = least (least x xs) (y :: ys) := List.foldl_append
  rw [happend]
  clear happend
  generalize least x xs = a at hfirst
  induction ys generalizing y with
  | nil => rfl
  | cons z ys ih =>
    have hy := hys y (by simp)
    have hz := hys z (by simp)
    have hmin : Binary64.min y z ≠ .nan := by
      unfold Binary64.min
      split
      · exact hz
      · exact hy
    have hrest : ∀ w ∈ Binary64.min y z :: ys, w ≠ .nan := List.forall_mem_cons.2 ⟨hmin, fun w hw => hys w (by simp [hw])⟩
    calc least a (y :: z :: ys) = least (Binary64.min (Binary64.min a y) z) ys := rfl
      _ = least a (Binary64.min y z :: ys) := by rw [Binary64.min_assoc hfirst hy hz]; rfl
      _ = Binary64.min a (least (Binary64.min y z) ys) := ih hrest

/-- Aggregated confidences give one of them, rounded to six places. -/
theorem exists_aggregate (own : Binary64) {xs : List Binary64} (h : xs ≠ []) : ∃ x ∈ xs, aggregate own xs = x.roundSix := by
  cases xs with
  | nil => exact absurd rfl h
  | cons first rest => exact ⟨least first rest, least_mem first rest, rfl⟩

/-- A first confidence that no other one is below is the least. -/
theorem least_eq_first {first : Binary64} {rest : List Binary64} (h : ∀ x ∈ rest, ¬x < first) :
    least first rest = first := by
  induction rest with
  | nil => rfl
  | cons x rest ih =>
    have hx : Binary64.min first x = first := by
      rw [Binary64.min, if_neg (h x (by simp))]
    simp only [least, List.foldl_cons, hx]
    exact ih (fun y hy => h y (by simp [hy]))

end SyntaxTree

end TokenForest
