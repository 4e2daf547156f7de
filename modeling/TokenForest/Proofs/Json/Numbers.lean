import TokenForest.Json.Writer
import TokenForest.Proofs.Numeral

/-!
# Numbers in JSON

An integer that fits into 64 bits and any finite number are written as literals that read back to them. So it is with any layout of
decimals: the point or the exponent tells a number with a fraction from an integer.
-/

namespace TokenForest

namespace Json

variable {dialect : Dialect} {whole rest : List Char}

/-- The literal of a number with a sign or without one. -/
def signed (negative : Bool) (body : List Char) : List Char := if negative then '-' :: body else body

/-- The sign is taken off, and then the digits; what stands behind them tells an integer from a decimal. -/
theorem number?_signed (dialect : Dialect) (negative : Bool) (hwhole : Numeral.IsWhole whole) (hstop : ∀ c ∈ rest.head?, c.isDigit = false) :
    (rest = [] → number? dialect (signed negative (whole ++ rest)) =
      integer? dialect (if negative then -(Nat.ofDigitChars 10 whole 0 : Int) else Nat.ofDigitChars 10 whole 0)) ∧
    (Numeral.IsRest rest →
      number? dialect (signed negative (whole ++ rest)) = number?.finite? dialect (Numeral.unsignedDecimal? negative (whole ++ rest))) := by
  obtain ⟨htake, hdrop⟩ := takeWhile_append_stop hwhole.digits hstop
  unfold number?
  split
  rename_i sign body heq
  have hsign : (sign, body) = (negative, whole ++ rest) := by
    rw [← heq]
    cases negative with
    | true => rfl
    | false =>
      obtain ⟨c, whole, rfl⟩ := List.exists_cons_of_ne_nil hwhole.filled
      simp only [signed]
      split
      · rename_i hcons
        have hdigit := hwhole.digits '-' (by simp_all)
        cases hdigit
      · rfl
  cases hsign
  have hform : ¬(whole = [] ∨ whole.head? = some '0' ∧ whole.length ≠ 1) := not_or.2 ⟨hwhole.filled, hwhole.normal⟩
  simp only [htake, hdrop, if_neg hform, Numeral.ofDigits_map_asciiDigit]
  constructor
  · rintro rfl
    rfl
  · intro hrest
    cases hrest with
    | point hdigit => simp [hdigit]
    | exponent tail => simp

theorem isNumberChar_of_isMark {c : Char} (h : Numeral.IsMark c) : isNumberChar c = true := by
  rcases h with h | h
  · simp [isNumberChar, h]
  · have hall : ['-', '+', '.', 'e'].all isNumberChar = true := by decide
    exact List.all_eq_true.1 hall c h

/-- The text is a literal of the value: characters of numbers only, from the first to the last. -/
structure IsLiteral (dialect : Dialect) (text : List Char) (v : Json) : Prop where
  filled : text ≠ []
  marks : ∀ c ∈ text, isNumberChar c = true
  value : number? dialect text = some v

theorem marks_signed {negative : Bool} {body : List Char} (h : ∀ c ∈ body, isNumberChar c = true) :
    ∀ c ∈ signed negative body, isNumberChar c = true := by
  cases negative with
  | false => exact h
  | true => exact List.forall_mem_cons.2 ⟨rfl, h⟩

theorem signed_ne_nil {negative : Bool} {body : List Char} (h : body ≠ []) : signed negative body ≠ [] := by
  cases negative with
  | false => exact h
  | true => exact List.cons_ne_nil _ _

/-! ## Integers -/

/-- The text of an integer, sign and digits. -/
theorem toList_toString_int (n : Int) : (toString n).toList = signed (decide (n < 0)) (toString n.natAbs).toList := by
  cases n with
  | ofNat m => rfl
  | negSucc m =>
    have htext : toString (Int.negSucc m) = "-" ++ toString (m + 1) := rfl
    rw [decide_eq_true (Int.negSucc_lt_zero m), htext]
    simp [signed]

/-- An integer that fits is read back. -/
theorem isLiteral_toString {n : Int} (h : dialect.machineNumbers = true → fits64 n = true) :
    IsLiteral dialect (toString n).toList (int n) := by
  have hwhole := Numeral.isWhole_toString n.natAbs
  have hstop : ∀ c ∈ ([] : List Char).head?, c.isDigit = false := by simp
  have hnumber := (number?_signed dialect (decide (n < 0)) hwhole hstop).1 rfl
  have hinteger : (if decide (n < 0) = true then -((n.natAbs : Nat) : Int) else n.natAbs) = n := by
    split
    · rename_i hneg
      have hneg : n < 0 := of_decide_eq_true hneg
      omega
    · rename_i hneg
      have hneg : ¬n < 0 := fun h => hneg (decide_eq_true h)
      omega
  rw [toList_toString_int]
  refine ⟨signed_ne_nil hwhole.filled, marks_signed fun c hc => isNumberChar_of_isMark (.inl (hwhole.digits c hc)), ?_⟩
  rw [List.append_nil, Numeral.ofDigitChars_toString, hinteger] at hnumber
  rw [hnumber, integer?]
  cases hmachine : dialect.machineNumbers with
  | false => rfl
  | true => simp [h hmachine]

/-! ## Decimals -/

theorem finite?_eq {x : Binary64} (h : x.isFinite = true) : number?.finite? dialect (some x) = some (float x) := by
  simp [number?.finite?, h]

theorem unsignedDecimal?_zero (negative : Bool) :
    Numeral.unsignedDecimal? negative ['0', '.', '0'] = some (Binary64.ofMagnitude negative 0) := by
  cases negative <;> decide +kernel

/-- Zero is read back with its sign. -/
theorem isLiteral_zero (dialect : Dialect) (negative : Bool) :
    IsLiteral dialect (signed negative ['0', '.', '0']) (float (.ofMagnitude negative 0)) := by
  have hrest : Numeral.IsRest ['.', '0'] := .point rfl
  have hnumber := (number?_signed dialect negative Numeral.isWhole_zero hrest.stop).2 hrest
  refine ⟨signed_ne_nil (by simp), marks_signed (by simp [isNumberChar]), hnumber.trans ?_⟩
  rw [List.singleton_append, unsignedDecimal?_zero]
  exact finite?_eq (Binary64.isFinite_ofMagnitude negative representable_zero)

/-- A decimal is read as the number that it is nearest to, with its sign. -/
theorem isLiteral_of_reads (dialect : Dialect) (negative : Bool) {text : List Char} {d : Binary64.Decimal} (h : Numeral.Reads text d)
    (hd : Representable d.nearest) (hne : d.nearest ≠ 0) :
    IsLiteral dialect (signed negative text) (float (.ofMagnitude negative d.nearest)) := by
  obtain ⟨whole, rest, hform, hwhole, hrest⟩ := h.form
  obtain ⟨d', hsame, hvalue⟩ := h.value
  have hnumber := (number?_signed dialect negative hwhole hrest.stop).2 hrest
  rw [← hform, hvalue, Binary64.ofDecimal_eq _ (by rwa [hsame]) (by rwa [hsame]), hsame] at hnumber
  refine ⟨signed_ne_nil (by simp [hform, hwhole.filled]), marks_signed fun c hc => isNumberChar_of_isMark (h.marks c hc),
    hnumber.trans ?_⟩
  exact finite?_eq (Binary64.isFinite_ofMagnitude negative hd)

theorem ofMagnitude_natAbs {u : Int} (hu : Representable u.natAbs) :
    Binary64.ofMagnitude (decide (u < 0)) u.natAbs = .finite u hu := by
  rw [Binary64.ofMagnitude, dif_pos hu]
  split
  · rename_i hneg
    rw [decide_eq_true_iff] at hneg
    rw [if_neg (by omega)]
    congr 1
    omega
  · rename_i hneg
    rw [decide_eq_true_iff] at hneg
    congr 1
    omega

/-- A finite number is read back from its text in any layout. -/
theorem isLiteral_text (f : Binary64.Layout) {x : Binary64} (h : x.isFinite = true) :
    IsLiteral dialect (f.text x).toList (float x) := by
  cases x with
  | finite u hu =>
    by_cases hzero : u = 0
    · subst hzero
      have htext : (f.text (.finite 0 hu)).toList = signed false ['0', '.', '0'] := by
        rw [Binary64.Layout.text, if_pos rfl]
        decide
      have hzero : Binary64.ofMagnitude false 0 = .finite 0 hu := Binary64.ofMagnitude_eq_finite hu
      rw [htext, ← hzero]
      exact isLiteral_zero dialect false
    · have hshortest : (Binary64.Decimal.shortest u.natAbs).nearest = u.natAbs := Binary64.Decimal.nearest_shortest hu
      have hne : (Binary64.Decimal.shortest u.natAbs).nearest ≠ 0 := by rwa [hshortest, Ne, Int.natAbs_eq_zero]
      have hreads := Numeral.reads_decimalText f (Binary64.Decimal.digits_ne_zero hne)
      have htext : (f.text (.finite u hu)).toList = signed (decide (u < 0)) (f.decimalText (.shortest u.natAbs)).toList := by
        rw [Binary64.Layout.text, if_neg hzero]
        by_cases hneg : u < 0 <;> simp [hneg, signed]
      have hliteral := isLiteral_of_reads dialect (decide (u < 0)) hreads (by rwa [hshortest]) hne
      rwa [hshortest, ofMagnitude_natAbs hu, ← htext] at hliteral
  | negZero =>
    have hzero : Binary64.ofMagnitude true 0 = .negZero := dif_pos representable_zero
    have htext : (f.text .negZero).toList = signed true ['0', '.', '0'] := by
      rw [Binary64.Layout.text]
      decide
    rw [htext, ← hzero]
    exact isLiteral_zero dialect true
  | _ => cases h

end Json

end TokenForest
