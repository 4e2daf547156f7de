import TokenForest.Numeral
import TokenForest.Proofs.Binary64.ShortestDecimal
import TokenForest.Proofs.Position
import TokenForest.Proofs.Text

/-!
# Decimals in texts

A layout writes a decimal as digits with a point, with an exponent or with both. Read back, the text gives a decimal of the same value,
so the shortest decimal of a number is read as the number.
-/

namespace TokenForest

namespace Numeral

/-! ## Digits -/

/-- The value of some digits. -/
theorem ofDigits_map_asciiDigit (ds : List Char) : ofDigits (ds.map asciiDigit) = Nat.ofDigitChars 10 ds 0 := by
  rw [Nat.ofDigitChars_eq_foldl, ofDigits, List.foldl_map]
  rfl

theorem ofDigitChars_toString (n : Nat) : Nat.ofDigitChars 10 (toString n).toList 0 = n := by
  rw [Position.toList_toString]
  exact Nat.ofDigitChars_ten_toDigits

/-- Zeros in front do not count. -/
theorem ofDigitChars_zeros_append (zeros : Nat) (ds : List Char) :
    Nat.ofDigitChars 10 (List.replicate zeros '0' ++ ds) 0 = Nat.ofDigitChars 10 ds 0 := by
  rw [Nat.ofDigitChars_append, Nat.ofDigitChars_replicate_zero, Nat.mul_zero]

/-- Zeros behind are a power of ten. -/
theorem ofDigitChars_append_zeros (ds : List Char) (zeros : Nat) :
    Nat.ofDigitChars 10 (ds ++ List.replicate zeros '0') 0 = Nat.ofDigitChars 10 ds 0 * 10 ^ zeros := by
  rw [Nat.ofDigitChars_append, Nat.ofDigitChars_replicate_zero, Nat.mul_comm]

theorem isDigit_of_mem_zeros {zeros : Nat} {c : Char} (h : c ∈ List.replicate zeros '0') : c.isDigit = true := by
  rw [List.eq_of_mem_replicate h]
  rfl

/-- A positive number is not written with a zero in front. -/
theorem head_toString_ne {n : Nat} (h : n ≠ 0) : (toString n).toList.head? ≠ some '0' := by
  rw [Position.toList_toString]
  induction n using Nat.strongRecOn with
  | _ n ih =>
    rw [Nat.toDigits_eq_if (by omega)]
    split
    · rename_i hlt
      have hdigits : ∀ d < 10, d ≠ 0 → [d.digitChar].head? ≠ some '0' := by decide
      exact hdigits n hlt h
    · obtain ⟨c, rest, hcons⟩ := List.exists_cons_of_ne_nil (Nat.toDigits_ne_nil (n := n / 10) (b := 10))
      have hhead := ih (n / 10) (by omega) (by omega)
      rw [hcons] at hhead ⊢
      exact hhead

theorem toList_toString_ne_nil (n : Nat) : (toString n).toList ≠ [] := by
  rw [Position.toList_toString]
  exact Nat.toDigits_ne_nil

/-! ## Exponents -/

/-- A digit is no sign. -/
theorem splitSign_of_isDigit {c : Char} (h : c.isDigit = true) (rest : List Char) : splitSign (c :: rest) = (false, c :: rest) := by
  unfold splitSign
  split
  · rename_i heq
    rw [List.cons.injEq] at heq
    rw [heq.1] at h
    cases h
  · rename_i heq
    rw [List.cons.injEq] at heq
    rw [heq.1] at h
    cases h
  · rfl

theorem toList_exponentText (f : Binary64.Layout) (e : Int) : ∃ zeros, (f.exponentText e).toList =
    (if e < 0 then ['-'] else if f.plusSign then ['+'] else []) ++ (List.replicate zeros '0' ++ (toString e.natAbs).toList) := by
  refine ⟨f.exponentWidth - (toString e.natAbs).length, ?_⟩
  simp only [Binary64.Layout.exponentText, String.toList_append, String.toList_ofList]
  congr 1
  split
  · rfl
  · split <;> rfl

/-- The sign of an exponent is told from its digits. -/
theorem splitSign_exponentText (f : Binary64.Layout) (e : Int) : ∃ ds, splitSign (f.exponentText e).toList = (decide (e < 0), ds) ∧
    ds ≠ [] ∧ (∀ c ∈ ds, c.isDigit = true) ∧ Nat.ofDigitChars 10 ds 0 = e.natAbs := by
  obtain ⟨zeros, htext⟩ := toList_exponentText f e
  have hdigits : ∀ c ∈ List.replicate zeros '0' ++ (toString e.natAbs).toList, c.isDigit = true :=
    List.forall_mem_append.2 ⟨fun _ => isDigit_of_mem_zeros, fun _ => Position.isDigit_of_mem_toString⟩
  have hne : List.replicate zeros '0' ++ (toString e.natAbs).toList ≠ [] := by simp
  refine ⟨_, ?_, hne, hdigits, by rw [ofDigitChars_zeros_append, ofDigitChars_toString]⟩
  rw [htext]
  obtain ⟨c, rest, hcons⟩ := List.exists_cons_of_ne_nil hne
  by_cases hneg : e < 0
  · simp [hneg, splitSign]
  · by_cases hplus : f.plusSign = true
    · simp [hneg, hplus, splitSign]
    · rw [if_neg hneg, if_neg hplus, List.nil_append, hcons, splitSign_of_isDigit (hdigits c (by rw [hcons]; simp))]
      simp [hneg]

/-- An exponent in a text is read as it is. -/
theorem exponent?_exponentText (f : Binary64.Layout) (e : Int) : exponent? ('e' :: (f.exponentText e).toList) = some e := by
  obtain ⟨ds, hsplit, hne, hdigits, hvalue⟩ := splitSign_exponentText f e
  rw [exponent?, if_pos (Or.inl rfl)]
  simp only [hsplit, ofDigits_map_asciiDigit, hvalue]
  rw [if_pos ⟨hne, List.all_eq_true.2 hdigits⟩]
  by_cases hneg : e < 0
  · simp only [hneg, decide_true, if_true]
    congr 1
    omega
  · simp only [hneg, decide_false, Bool.false_eq_true, if_false]
    congr 1
    omega

/-! ## Decimals -/

/-- One or more digits, without a zero in front of others. -/
structure IsWhole (whole : List Char) : Prop where
  digits : ∀ c ∈ whole, c.isDigit = true
  filled : whole ≠ []
  normal : ¬(whole.head? = some '0' ∧ whole.length ≠ 1)

theorem isWhole_zero : IsWhole ['0'] := ⟨List.forall_mem_singleton.2 rfl, List.cons_ne_nil _ _, by simp⟩

/-- What makes a decimal of a whole part: a point and a digit, or an exponent. -/
inductive IsRest : List Char → Prop where
  | point {c : Char} {tail : List Char} (h : c.isDigit = true) : IsRest ('.' :: c :: tail)
  | exponent (tail : List Char) : IsRest ('e' :: tail)

theorem IsRest.stop {rest : List Char} (h : IsRest rest) : ∀ c ∈ rest.head?, c.isDigit = false := by
  cases h <;> simp

/-- A digit, or a character that stands between the digits of a number. -/
def IsMark (c : Char) : Prop := c.isDigit = true ∨ c ∈ ['-', '+', '.', 'e']

/-- The end of a number: nothing, or an exponent. -/
structure IsTail (tail : List Char) (e : Int) : Prop where
  value : exponent? tail = some e
  stop : ∀ c ∈ tail.head?, c.isDigit = false
  marks : ∀ c ∈ tail, IsMark c

/-- The text is a number with a point or an exponent, and it is read as a decimal of the same value. -/
structure Reads (text : List Char) (d : Binary64.Decimal) : Prop where
  form : ∃ whole rest, text = whole ++ rest ∧ IsWhole whole ∧ IsRest rest
  marks : ∀ c ∈ text, IsMark c
  value : ∃ d' : Binary64.Decimal, d'.nearest = d.nearest ∧
    ∀ negative, unsignedDecimal? negative text = some (Binary64.ofDecimal negative d'.digits d'.exponent)

variable {whole fraction tail : List Char} {e : Int} {d : Binary64.Decimal}

theorem isTail_nil : IsTail [] 0 := ⟨rfl, by simp, by simp⟩

theorem isTail_exponentText (f : Binary64.Layout) (e : Int) : IsTail ('e' :: (f.exponentText e).toList) e := by
  refine ⟨exponent?_exponentText f e, by simp, fun c hc => ?_⟩
  obtain ⟨zeros, htext⟩ := toList_exponentText f e
  rw [htext] at hc
  rcases List.mem_cons.1 hc with rfl | hc
  · exact Or.inr (by simp)
  rcases List.mem_append.1 hc with hc | hc
  · refine Or.inr ?_
    split at hc
    · simp_all
    · split at hc <;> simp_all
  · rcases List.mem_append.1 hc with hc | hc
    · exact Or.inl (isDigit_of_mem_zeros hc)
    · exact Or.inl (Position.isDigit_of_mem_toString hc)

/-- A number with a point is read as its digits and as many places. -/
theorem reads_point (hwhole : IsWhole whole) (hfraction : ∀ c ∈ fraction, c.isDigit = true) (hfilled : fraction ≠ [])
    (htail : IsTail tail e)
    (hd : (⟨Nat.ofDigitChars 10 (whole ++ fraction) 0, e - fraction.length⟩ : Binary64.Decimal).nearest = d.nearest) :
    Reads (whole ++ '.' :: (fraction ++ tail)) d := by
  have hpoint : ∀ c ∈ ('.' :: (fraction ++ tail)).head?, c.isDigit = false := by simp
  obtain ⟨hfront, hback⟩ := takeWhile_append_stop hwhole.digits hpoint
  obtain ⟨hfraction', htail'⟩ := takeWhile_append_stop hfraction htail.stop
  refine ⟨⟨whole, _, rfl, hwhole, ?_⟩, ?_, _, hd, fun negative => ?_⟩
  · obtain ⟨c, fraction, rfl⟩ := List.exists_cons_of_ne_nil hfilled
    exact .point (hfraction c (by simp))
  · intro c hc
    simp only [List.mem_append, List.mem_cons] at hc
    rcases hc with hc | rfl | hc | hc
    · exact Or.inl (hwhole.digits c hc)
    · exact Or.inr (by simp)
    · exact Or.inl (hfraction c hc)
    · exact htail.marks c hc
  · simp only [unsignedDecimal?, hfront, hback, splitFraction, hfraction', htail', hwhole.filled, false_and, if_false, htail.value,
      Option.map_some, ofDigits_map_asciiDigit]

/-- A number with an exponent only is read as its digits. -/
theorem reads_exponent (hwhole : IsWhole whole) (htail : IsTail ('e' :: tail) e)
    (hd : (⟨Nat.ofDigitChars 10 whole 0, e⟩ : Binary64.Decimal).nearest = d.nearest) : Reads (whole ++ 'e' :: tail) d := by
  obtain ⟨hfront, hback⟩ := takeWhile_append_stop hwhole.digits htail.stop
  have hsplit : splitFraction ('e' :: tail) = ([], 'e' :: tail) := rfl
  refine ⟨⟨whole, _, rfl, hwhole, .exponent tail⟩, ?_, _, hd, fun negative => ?_⟩
  · intro c hc
    rcases List.mem_append.1 hc with hc | hc
    · exact Or.inl (hwhole.digits c hc)
    · exact htail.marks c hc
  · simp only [unsignedDecimal?, hfront, hback, hsplit, hwhole.filled, false_and, if_false, htail.value, Option.map_some,
      List.append_nil, ofDigits_map_asciiDigit, List.length_nil, Int.natCast_zero, Int.sub_zero]

/-! ## The digits of a decimal -/

/-- The digits of a positive number, without a zero in front. -/
structure Spells (ds : List Char) (n : Nat) : Prop where
  digits : ∀ c ∈ ds, c.isDigit = true
  head : ds.head? ≠ some '0'
  filled : ds ≠ []
  value : Nat.ofDigitChars 10 ds 0 = n

theorem spells_toString {n : Nat} (h : n ≠ 0) : Spells (toString n).toList n :=
  ⟨fun _ => Position.isDigit_of_mem_toString, head_toString_ne h, toList_toString_ne_nil n, ofDigitChars_toString n⟩

namespace Spells

variable {ds : List Char} {n : Nat}

/-- Other digits with the same start may stand in front of a point. -/
theorem isWhole (h : Spells ds n) (hsame : whole.head? = ds.head?) (hall : ∀ c ∈ whole, c.isDigit = true) : IsWhole whole := by
  refine ⟨hall, ?_, fun hzero => h.head (hsame ▸ hzero.1)⟩
  rintro rfl
  exact h.filled (List.head?_eq_none_iff.1 hsame.symm)

/-- A zero, a point and zeros in front of the digits. -/
theorem reads_front (h : Spells ds n) (exponent : Int) (hpoint : exponent + ds.length ≤ 0) :
    Reads (['0'] ++ '.' :: (List.replicate (-(exponent + ds.length)).toNat '0' ++ ds ++ [])) ⟨n, exponent⟩ := by
  have hcons : ['0'] = List.replicate 1 '0' := rfl
  refine reads_point isWhole_zero (List.forall_mem_append.2 ⟨fun _ => isDigit_of_mem_zeros, h.digits⟩) (by simp [h.filled])
    isTail_nil ?_
  rw [hcons, ofDigitChars_zeros_append, ofDigitChars_zeros_append, h.value, List.length_append, List.length_replicate]
  congr 2
  omega

/-- Zeros behind the digits, a point and a zero. -/
theorem reads_back (h : Spells ds n) (exponent : Int) (hpoint : 0 ≤ exponent) :
    Reads (ds ++ List.replicate exponent.toNat '0' ++ '.' :: (['0'] ++ [])) ⟨n, exponent⟩ := by
  have hcons : ['0'] = List.replicate 1 '0' := rfl
  have hsame : (ds ++ List.replicate exponent.toNat '0').head? = ds.head? := by
    rw [List.head?_append, Option.or_of_isSome (by simpa using h.filled)]
  refine reads_point (h.isWhole hsame (List.forall_mem_append.2 ⟨h.digits, fun _ => isDigit_of_mem_zeros⟩)) (by simp) (by simp)
    isTail_nil ?_
  rw [hcons, List.append_assoc, List.replicate_append_replicate, ofDigitChars_append_zeros, h.value, Binary64.Decimal.nearest_shift,
    List.length_replicate]
  congr 2
  omega

/-- A point between the digits. -/
theorem reads_between (h : Spells ds n) (exponent : Int) (hpos : 0 < exponent + ds.length) (hneg : exponent < 0) :
    Reads (ds.take (exponent + ds.length).toNat ++ '.' :: (ds.drop (exponent + ds.length).toNat ++ [])) ⟨n, exponent⟩ := by
  generalize hplaces : (exponent + ds.length).toNat = places
  have hsame : (ds.take places).head? = ds.head? := by rw [List.head?_take, if_neg (by omega)]
  have hlt : places < ds.length := by omega
  refine reads_point (h.isWhole hsame fun c hc => h.digits c (List.mem_of_mem_take hc))
    (fun c hc => h.digits c (List.mem_of_mem_drop hc)) (by simp [hlt]) isTail_nil ?_
  rw [List.take_append_drop, h.value, List.length_drop]
  congr 2
  omega

/-- One digit, a point and the others if there are any, and an exponent. -/
theorem reads_exponent {c : Char} {rest : List Char} (h : Spells (c :: rest) n) (f : Binary64.Layout) {e exponent : Int}
    (he : e = exponent + rest.length) :
    Reads (c :: (if rest = [] then [] else '.' :: rest) ++ 'e' :: (f.exponentText e).toList) ⟨n, exponent⟩ := by
  have hfirst : IsWhole [c] := h.isWhole rfl (by simpa using h.digits c (by simp))
  have htail := isTail_exponentText f e
  subst he
  split
  · rename_i hnil
    subst hnil
    refine Numeral.reads_exponent hfirst htail ?_
    rw [h.value]
    congr 2
    simp
  · rename_i hrest
    refine reads_point hfirst (fun x hx => h.digits x (by simp [hx])) hrest htail ?_
    rw [List.singleton_append, h.value]
    congr 2
    omega

end Spells

/-- A number is written as digits without a zero in front of others. -/
theorem isWhole_toString (n : Nat) : IsWhole (toString n).toList := by
  by_cases h : n = 0
  · subst h
    exact isWhole_zero
  · exact (spells_toString h).isWhole rfl fun _ => Position.isDigit_of_mem_toString

/-- The text of a decimal is read as a decimal of the same value. -/
theorem reads_decimalText (f : Binary64.Layout) (hd : d.digits ≠ 0) : Reads (f.decimalText d).toList d := by
  have h := spells_toString hd
  obtain ⟨n, exponent⟩ := d
  simp only [Binary64.Layout.decimalText]
  simp only at h
  generalize (toString n).toList = ds at h ⊢
  have hpositive : 0 < ds.length := List.length_pos_iff.2 h.filled
  -- the place of the point, counted from the first digit
  have hplace : exponent + (ds.length : Int) - 1 + 1 = exponent + ds.length := Int.sub_add_cancel _ _
  rw [hplace]
  split
  · split
    · rename_i hpoint
      simpa using h.reads_front exponent hpoint
    · split
      · rename_i hpoint hcount
        have hzeros : exponent + (ds.length : Int) - ds.length = exponent := Int.add_sub_cancel _ _
        rw [hzeros]
        simpa using h.reads_back exponent (by omega)
      · rename_i hpoint hcount
        simpa using h.reads_between exponent (by omega) (by omega)
  · cases ds with
    | nil => exact absurd rfl h.filled
    | cons c rest =>
      have hleading : exponent + ((c :: rest).length : Int) - 1 = exponent + rest.length := by
        rw [List.length_cons]
        omega
      have hreads := h.reads_exponent f hleading
      cases rest <;> simpa using hreads

end Numeral

end TokenForest
