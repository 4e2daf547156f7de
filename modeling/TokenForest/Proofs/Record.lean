import TokenForest.Proofs.Binary64.SixPlaces
import TokenForest.Proofs.Json.Reader
import TokenForest.TokenFile

/-!
# Records made from what is read in a file

An object of a file holds no number beyond all range, so whatever is wrong with its fields is a fault of the record, and is reported with
the line.
-/

namespace TokenForest

namespace Binary64

/-- The nearest number to an integer of 64 bits is finite. -/
theorem isFinite_ofInt {n : Int} (h : n.natAbs < 2 ^ 64) : (ofInt n).isFinite = true := by
  have hunits : n.natAbs * unitsPerOne < 2 ^ (64 + unitExponent) := by
    rw [Nat.pow_add, ← unitsPerOne_eq]
    exact Nat.mul_lt_mul_of_pos_right h unitsPerOne_pos
  have hnearest : nearestUnits (n.natAbs * unitsPerOne) 1 ≤ 2 ^ (64 + unitExponent) := by
    refine nearestUnits_le Nat.one_pos (gridStep_dvd_two_pow (Nat.le_of_lt ?_)) (by omega)
    rw [Nat.div_one]
    exact log2_lt_of_lt (by omega) hunits
  refine isFinite_ofMagnitude _ ⟨?_, Nat.mod_eq_zero_of_dvd (gridStep_dvd_nearestUnits Nat.one_pos)⟩
  have hlog : (nearestUnits (n.natAbs * unitsPerOne) 1).log2 < 65 + unitExponent :=
    log2_lt_of_lt (by omega) (Nat.lt_of_le_of_lt hnearest (Nat.pow_lt_pow_right (by omega) (by omega)))
  have hexponent : 65 + unitExponent < 2098 := by
    unfold unitExponent
    omega
  omega

end Binary64

namespace TokenRecord

open TokenFile

variable {α β : Type}

/-- Every fault of the computation is reported with the line. -/
def Located (x : Except Fault α) : Prop := ∀ fault, x = .error fault → isLocated fault = true

theorem Located.ok (a : α) : Located (.ok a) := by
  intro fault h
  cases h

theorem Located.error {fault : Fault} (h : isLocated fault = true) : Located (.error fault : Except Fault α) := by
  intro other hother
  cases hother
  exact h

theorem Located.bind {x : Except Fault α} {f : α → Except Fault β} (hx : Located x) (hf : ∀ a, Located (f a)) : Located (x >>= f) := by
  cases x with
  | error fault => exact .error (hx fault rfl)
  | ok a => exact hf a

theorem Located.map {x : Except Fault α} (hx : Located x) (f : α → β) : Located (x.map f) := by
  cases x with
  | error fault => exact .error (hx fault rfl)
  | ok a => exact .ok (f a)

/-! ## Fields -/

variable {v : Json}

theorem located_toInteger (h : v.Machine) : Located (toInteger v) := by
  cases h with
  | float hfinite =>
    rename_i x
    have htruncate : x.truncate? = some (x.units.tdiv Binary64.unitsPerOne) := by rw [Binary64.truncate?, if_pos hfinite]
    cases x <;> simp only [toInteger, htruncate] <;> first | exact .ok _ | exact .error rfl
  | str s =>
    simp only [toInteger]
    split <;> first | exact .ok _ | exact .error rfl
  | int _ | bool _ => exact .ok _
  | _ => exact .error rfl

theorem located_toScore (h : v.Machine) : Located (toScore v) := by
  cases h with
  | int hfits =>
    rename_i n
    have hfinite : (Binary64.ofInt n).isFinite = true := by
      simp only [Json.fits64, Bool.and_eq_true, decide_eq_true_eq] at hfits
      exact Binary64.isFinite_ofInt (by omega)
    simp only [toScore, hfinite, if_true]
    exact .ok _
  | str s =>
    simp only [toScore]
    split <;> first | exact .ok _ | exact .error rfl
  | float _ | bool _ => exact .ok _
  | _ => exact .error rfl

theorem located_integerField (h : v.Machine) (key : String) : Located (integerField v key) := by
  unfold integerField
  split
  · exact .ok _
  · exact .ok _
  · rename_i value _ hvalue
    exact (located_toInteger (h.get? hvalue)).map some

theorem located_scoreField (h : v.Machine) (key : String) : Located (scoreField v key) := by
  unfold scoreField
  split
  · exact .ok _
  · rename_i value hvalue
    exact located_toScore (h.get? hvalue)

theorem located_check (r : TokenRecord) : Located r.check := by
  unfold check fault?
  intro fault h
  split at h
  · rename_i other hother
    cases h
    -- Every check has its own fault, and all of them are reported with the line.
    repeat' split at hother
    all_goals cases hother <;> rfl
  · cases h

/-! ## Records -/

/-- Whatever is wrong with an object of a file is reported with the line. -/
theorem located_ofJson {members : List (String × Json)} (h : (Json.obj members).Machine) : Located (ofJson (.obj members)) :=
  (located_integerField h "row").bind fun _ => (located_integerField h "column").bind fun _ =>
  (located_integerField h "process").bind fun _ => (located_integerField h "stage").bind fun _ =>
  (located_integerField h "phase").bind fun _ => (located_scoreField h "lexical_confidence").bind fun _ => located_check _

/-- What is no object is refused for that. -/
theorem ofJson_of_not_object (h : ∀ members, v ≠ .obj members) : ofJson v = .error (.notAnObject v.kindName) := by
  cases v with
  | obj members => exact absurd rfl (h members)
  | _ => rfl

end TokenRecord

end TokenForest
