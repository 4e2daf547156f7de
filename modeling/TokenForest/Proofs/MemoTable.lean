import TokenForest.MemoTable

/-!
# Tables of values already computed

Asking for a value finds the stored one, or stores the computed one; what is stored stays as it is. So a value that is stored once is
the answer ever after.
-/

namespace TokenForest

namespace MemoTable

variable {κ ν ε : Type} [DecidableEq κ] {t t' : MemoTable κ ν} {key : κ} {v : ν} {compute : Unit → Except ε ν}

theorem mem_of_get? (h : t.get? key = some v) : (key, v) ∈ t.entries := by
  obtain ⟨front, back, hentries, _⟩ := List.lookup_eq_some_iff.1 h
  rw [hentries]
  simp

/-! ## Answers -/

section Answers

variable {isNull : ν → Bool}

/-- The answer of a table is a stored value that is not null. -/
theorem answer?_eq_some_iff : t.answer? isNull key = some v ↔ t.get? key = some v ∧ isNull v = false := by
  rw [answer?, Option.filter_eq_some_iff, Bool.not_eq_true']

theorem memoize_of_answer (h : t.answer? isNull key = some v) :
    t.memoize isNull key compute = (.ok v, { t with hits := t.hits + 1 }) := by
  unfold memoize
  rw [h]

theorem memoize_of_computed (h : t.answer? isNull key = none) (hv : compute () = .ok v) : t.memoize isNull key compute =
    (.ok ((t.get? key).getD v), { t.store key v with misses := t.misses + 1 }) := by
  unfold memoize
  rw [h, hv]

theorem memoize_of_failed {fault : ε} (h : t.answer? isNull key = none) (hfault : compute () = .error fault) :
    t.memoize isNull key compute = (.error fault, t) := by
  unfold memoize
  rw [h, hfault]

end Answers

/-- Where no value counts as null, every stored value is an answer. -/
theorem answer?_eq (t : MemoTable κ ν) (key : κ) : t.answer? (fun _ => false) key = t.get? key := by
  unfold answer?
  cases t.get? key <;> rfl

theorem memoize_of_get? (h : t.get? key = some v) :
    t.memoize (fun _ => false) key compute = (.ok v, { t with hits := t.hits + 1 }) :=
  memoize_of_answer (by rw [answer?_eq, h])

theorem memoize_of_fresh (h : t.get? key = none) (hv : compute () = .ok v) : t.memoize (fun _ => false) key compute =
    (.ok v, { t with entries := t.entries ++ [(key, v)], misses := t.misses + 1 }) := by
  rw [memoize_of_computed (by rw [answer?_eq, h]) hv]
  simp [store, h]

theorem memoize_of_error {fault : ε} (h : t.get? key = none) (hfault : compute () = .error fault) :
    t.memoize (fun _ => false) key compute = (.error fault, t) :=
  memoize_of_failed (by rw [answer?_eq, h]) hfault

/-! ## Tables that grow -/

/-- The second table has every stored value of the first one. -/
def Extends (t t' : MemoTable κ ν) : Prop := ∀ key v, t.get? key = some v → t'.get? key = some v

namespace Extends

theorem refl (t : MemoTable κ ν) : t.Extends t := fun _ _ h => h

theorem trans {t'' : MemoTable κ ν} (h : t.Extends t') (h' : t'.Extends t'') : t.Extends t'' :=
  fun key v hget => h' key v (h key v hget)

end Extends

/-- An answer is stored from then on, and nothing stored is lost. -/
theorem memoize_extends (h : t.memoize (fun _ => false) key compute = (.ok v, t')) :
    t.Extends t' ∧ t'.get? key = some v := by
  cases hget : t.get? key with
  | some w =>
    rw [memoize_of_get? hget] at h
    cases h
    exact ⟨Extends.refl t, hget⟩
  | none =>
    cases hw : compute () with
    | error fault =>
      rw [memoize_of_error hget hw] at h
      cases h
    | ok w =>
      rw [memoize_of_fresh hget hw] at h
      cases h
      constructor
      · intro key' v' hstored
        unfold get? at hstored ⊢
        rw [List.lookup_append, hstored]
        rfl
      · unfold get? at hget ⊢
        rw [List.lookup_append, hget]
        simp

end MemoTable

end TokenForest
