import Mathlib.Data.List.Nodup
import TokenForest.Position

/-!
# Positions

Sort keys are ordered lexicographically: the order is total, transitive and antisymmetric, so it is an order of positions that
tells any two of them apart. The numbers in the name of a position are told apart by characters that are no digits, so positions with
one name are the same.
-/

namespace TokenForest

namespace Position

theorem keyLe_iff (a b : Int × Int × Int) :
    keyLe a b = true ↔ a.1 < b.1 ∨ a.1 = b.1 ∧ (a.2.1 < b.2.1 ∨ a.2.1 = b.2.1 ∧ a.2.2 ≤ b.2.2) := by
  simp [keyLe]

theorem keyLe_total (a b : Int × Int × Int) : keyLe a b = true ∨ keyLe b a = true := by
  rw [keyLe_iff, keyLe_iff]
  omega

theorem keyLe_trans {a b c : Int × Int × Int} (h : keyLe a b = true) (h' : keyLe b c = true) : keyLe a c = true := by
  rw [keyLe_iff] at *
  omega

theorem keyLe_antisymm {a b : Int × Int × Int} (h : keyLe a b = true) (h' : keyLe b a = true) : a = b := by
  rw [keyLe_iff] at *
  exact Prod.ext (by omega) (Prod.ext (by omega) (by omega))

theorem laneKey_injective {a b : Lane} (h : laneKey a = laneKey b) : a = b := by
  cases a <;> cases b <;> simp only [laneKey] at h
  · rfl
  · omega
  · omega
  · rw [Int.natCast_inj.1 h]

/-- Positions are told apart by their keys. -/
theorem orderKey_injective {a b : Position} (h : a.orderKey = b.orderKey) : a = b := by
  simp only [orderKey, Prod.mk.injEq, Int.natCast_inj] at h
  cases a
  cases b
  rw [Position.mk.injEq]
  exact ⟨h.2.1, h.2.2, laneKey_injective h.1⟩

theorem le_total (a b : Position) : (a.le b || b.le a) = true := by
  rw [Bool.or_eq_true]
  exact keyLe_total _ _

theorem le_trans (a b c : Position) (h : a.le b = true) (h' : b.le c = true) : a.le c = true := keyLe_trans h h'

theorem le_antisymm {a b : Position} (h : a.le b = true) (h' : b.le a = true) : a = b :=
  orderKey_injective (keyLe_antisymm h h')

/-- In order: the lanes, the rows within a lane, the columns within a row. -/
theorem le_iff {p q : Position} : p.le q = true ↔ laneKey p.lane < laneKey q.lane ∨
    p.lane = q.lane ∧ (p.row < q.row ∨ p.row = q.row ∧ p.column ≤ q.column) := by
  rw [le, keyLe_iff]
  simp only [orderKey, Int.ofNat_lt, Int.natCast_inj, Int.ofNat_le]
  constructor
  · rintro (h | ⟨hlane, h⟩)
    · exact Or.inl h
    · exact Or.inr ⟨laneKey_injective hlane, h⟩
  · rintro (h | ⟨hlane, h⟩)
    · exact Or.inl h
    · exact Or.inr ⟨by rw [hlane], h⟩

/-- Of two positions in order the first comes before the second, unless they are the same. -/
theorem before_of_le {p q : Position} (h : p.le q = true) (hne : p ≠ q) : p.Before q := by
  rcases le_iff.1 h with hlane | ⟨hlane, hrow | ⟨hrow, hcolumn⟩⟩
  · exact Or.inl hlane
  · exact Or.inr ⟨hlane, Or.inl hrow⟩
  · refine Or.inr ⟨hlane, Or.inr ⟨hrow, Nat.lt_of_le_of_ne hcolumn fun heq => hne ?_⟩⟩
    cases p
    cases q
    rw [Position.mk.injEq]
    exact ⟨hrow, heq, hlane⟩

/-- What stands at different positions can be put into source order in one way only. -/
theorem mergeSort_eq_of_perm {α : Type} {f : α → Position} {l s : List α} (hperm : l.Perm s)
    (hsorted : s.Pairwise (fun a b => (f a).le (f b) = true)) (hnodup : (s.map f).Nodup) :
    l.mergeSort (fun a b => (f a).le (f b)) = s := by
  have hsame := (List.mergeSort_perm l (fun a b => (f a).le (f b))).trans hperm
  refine hsame.eq_of_pairwise (fun a b ha hb hab hba => ?_) (List.pairwise_mergeSort ?_ ?_ l) hsorted
  · exact List.inj_on_of_nodup_map hnodup (hsame.mem_iff.1 ha) hb (le_antisymm hab hba)
  · exact fun a b c => le_trans (f a) (f b) (f c)
  · exact fun a b => le_total (f a) (f b)

/-! ## Numbers in texts -/

/-- The text of a number is made of its digits. -/
theorem toList_toString (n : Nat) : (toString n).toList = Nat.toDigits 10 n := by simp

theorem isDigit_of_mem_toString {n : Nat} {c : Char} (h : c ∈ (toString n).toList) : c.isDigit = true := by
  rw [toList_toString] at h
  exact Nat.isDigit_of_mem_toDigits (by decide) (by decide) h

theorem toList_toString_inj {m n : Nat} (h : (toString m).toList = (toString n).toList) : m = n := by
  rw [toList_toString, toList_toString] at h
  calc m = Nat.ofDigitChars 10 (Nat.toDigits 10 m) 0 := (Nat.ofDigitChars_toDigits (by decide) (by decide)).symm
    _ = Nat.ofDigitChars 10 (Nat.toDigits 10 n) 0 := by rw [h]
    _ = n := Nat.ofDigitChars_toDigits (by decide) (by decide)

/-- The digits up to another character are the same in one text. -/
theorem digits_unique {xs ys s t : List Char} {c d : Char} (hxs : ∀ x ∈ xs, x.isDigit = true) (hys : ∀ y ∈ ys, y.isDigit = true)
    (hc : c.isDigit = false) (hd : d.isDigit = false) (h : xs ++ c :: s = ys ++ d :: t) : xs = ys ∧ c = d ∧ s = t := by
  induction xs generalizing ys with
  | nil =>
    cases ys with
    | nil => simpa using h
    | cons y ys =>
      rw [List.nil_append, List.cons_append, List.cons.injEq] at h
      rw [h.1, hys y (by simp)] at hc
      cases hc
  | cons x xs ih =>
    cases ys with
    | nil =>
      rw [List.nil_append, List.cons_append, List.cons.injEq] at h
      rw [← h.1, hxs x (by simp)] at hd
      cases hd
    | cons y ys =>
      rw [List.cons_append, List.cons_append, List.cons.injEq] at h
      obtain ⟨hdigits, hrest⟩ := ih (fun z hz => hxs z (by simp [hz])) (fun z hz => hys z (by simp [hz])) h.2
      exact ⟨by rw [h.1, hdigits], hrest⟩

/-- A number in front of another character is the same in one text. -/
theorem number_unique {m n : Nat} {s t : List Char} {c d : Char} (hc : c.isDigit = false) (hd : d.isDigit = false)
    (h : (toString m).toList ++ c :: s = (toString n).toList ++ d :: t) : m = n ∧ c = d ∧ s = t := by
  obtain ⟨hdigits, hrest⟩ := digits_unique (fun _ => isDigit_of_mem_toString) (fun _ => isDigit_of_mem_toString) hc hd h
  exact ⟨toList_toString_inj hdigits, hrest⟩

/-! ## Names -/

/-- The row and the column in the name of a position. -/
def cellText (p : Position) : List Char := (toString p.row).toList ++ ':' :: (toString p.column).toList

theorem toList_label (p : Position) : p.label.toList = match p.lane with
    | none => p.cellText
    | some l => (toString l).toList ++ '/' :: p.cellText := by
  have hcolon : (toString ":").toList = [':'] := rfl
  have hslash : (toString "/").toList = ['/'] := rfl
  obtain ⟨row, column, lane⟩ := p
  cases lane <;> simp [label, cellText, hcolon, hslash]

theorem cellText_inj {p q : Position} (h : p.cellText = q.cellText) : p.row = q.row ∧ p.column = q.column := by
  obtain ⟨hrow, _, hcolumn⟩ := number_unique rfl rfl h
  exact ⟨hrow, toList_toString_inj hcolumn⟩

/-- Different positions have different names. -/
theorem label_injective {p q : Position} (h : p.label = q.label) : p = q := by
  obtain ⟨r, c, l⟩ := p
  obtain ⟨r', c', l'⟩ := q
  have htexts := congrArg String.toList h
  rw [toList_label, toList_label] at htexts
  cases l with
  | none =>
    cases l' with
    | none =>
      obtain ⟨rfl, rfl⟩ := cellText_inj htexts
      rfl
    | some l' =>
      obtain ⟨_, hmark, _⟩ := number_unique rfl rfl htexts
      cases hmark
  | some l =>
    cases l' with
    | none =>
      obtain ⟨_, hmark, _⟩ := number_unique rfl rfl htexts
      cases hmark
    | some l' =>
      obtain ⟨rfl, _, hcells⟩ := number_unique rfl rfl htexts
      obtain ⟨rfl, rfl⟩ := cellText_inj hcells
      rfl

end Position

end TokenForest
