import TokenForest.Json.Writer

/-!
# Strings in JSON

A string that is written to a file is read back: a quote, a backslash and a control character stand as escapes, everything else for
itself. So no control character, and no line feed, is in a written string.
-/

namespace TokenForest

namespace Json

variable {c : Char}

/-! ## Hexadecimal digits -/

theorem hexValue?_digitChar {d : Nat} (h : d < 16) : hexValue? d.digitChar = some d := by
  have hall : ∀ d < 16, hexValue? (Nat.digitChar d) = some d := by decide
  exact hall d h

/-- A unit is read back from its four digits. -/
theorem hexFour?_hexFour {n : Nat} (h : n < 65536) :
    hexFour? (n / 4096 % 16).digitChar (n / 256 % 16).digitChar (n / 16 % 16).digitChar (n % 16).digitChar = some n := by
  have hmod : ∀ k, hexValue? (k % 16).digitChar = some (k % 16) := fun k => hexValue?_digitChar (Nat.mod_lt _ (by omega))
  simp only [hexFour?, hmod, Option.bind_eq_bind, Option.bind_some, Option.pure_def]
  congr 1
  omega

/-! ## Characters -/

/-- The characters that are written with a letter, each with its letter. -/
def letters : List (Char × Char) :=
  [('"', '"'), ('\\', '\\'), ('\x08', 'b'), ('\x0c', 'f'), ('\n', 'n'), ('\r', 'r'), ('\t', 't')]

/-- The piece that a character of a file is read as: itself, or its number when it is a control character without a letter. -/
def pieceOf (c : Char) : Piece := if c.toNat < 32 ∧ c ∉ letters.map (·.1) then .unit c.toNat else .char c

theorem escapeChar_of_mem : ∀ m ∈ letters, escapeChar false m.1 = ['\\', m.2] ∧ m.2 ≠ 'u' ∧ escaped? m.2 = some m.1 ∧
    pieceOf m.1 = .char m.1 := by decide

theorem escapeChar_of_notMem (h : c ∉ letters.map (·.1)) :
    escapeChar false c = if c.toNat < 32 then unitEscape c.toNat else [c] := by
  simp only [letters, List.map_cons, List.map_nil, List.mem_cons, List.not_mem_nil, or_false, not_or] at h
  simp only [escapeChar, h, if_false, Bool.false_and, Bool.false_eq_true]
  split
  · rw [charEscape, if_pos (by omega)]
  · rfl

/-- What is written for a character is read as its piece. -/
theorem pieces?_escapeChar (c : Char) (rest : List Char) :
    pieces? (escapeChar false c ++ rest) = (pieces? rest).map (fun r => (pieceOf c :: r.1, r.2)) := by
  by_cases hletter : c ∈ letters.map (·.1)
  · obtain ⟨m, hm, rfl⟩ := List.mem_map.1 hletter
    obtain ⟨htext, hu, hescaped, hpiece⟩ := escapeChar_of_mem m hm
    rw [htext, hpiece, List.cons_append, List.singleton_append, pieces?.eq_def]
    simp only [Char.reduceEq, if_false, if_true, if_neg hu, hescaped, Option.bind_eq_bind, Option.bind_some]
    cases pieces? rest <;> rfl
  · rw [escapeChar_of_notMem hletter]
    split
    · rename_i hcontrol
      have hunit := hexFour?_hexFour (show c.toNat < 65536 by omega)
      rw [pieceOf, if_pos ⟨hcontrol, hletter⟩]
      simp only [unitEscape, hexFour, List.map_cons, List.map_nil, List.cons_append, List.nil_append]
      rw [pieces?.eq_def]
      simp only [Char.reduceEq, if_false, if_true, hunit, Option.bind_eq_bind, Option.bind_some]
      cases pieces? rest <;> rfl
    · rename_i hplain
      have hquote : c ≠ '"' := fun h => hletter (h ▸ by decide)
      have hslash : c ≠ '\\' := fun h => hletter (h ▸ by decide)
      rw [pieceOf, if_neg (fun h => hplain h.1), List.singleton_append, pieces?.eq_def]
      simp only [if_neg hquote, if_neg hslash, if_neg hplain]
      cases pieces? rest <;> rfl

/-- There is no control character in the text, and so no line feed. -/
def Unbroken (cs : List Char) : Prop := ∀ c ∈ cs, 32 ≤ c.toNat

theorem unbroken_of_all {cs : List Char} (h : cs.all (fun c => decide (32 ≤ c.toNat)) = true) : Unbroken cs := by
  simpa [Unbroken] using h

theorem Unbroken.cons {c : Char} {cs : List Char} (hc : 32 ≤ c.toNat) (h : Unbroken cs) : Unbroken (c :: cs) :=
  List.forall_mem_cons.2 ⟨hc, h⟩

theorem Unbroken.append {front back : List Char} (hfront : Unbroken front) (hback : Unbroken back) : Unbroken (front ++ back) :=
  List.forall_mem_append.2 ⟨hfront, hback⟩

theorem unbroken_escapeChar (c : Char) : Unbroken (escapeChar false c) := by
  by_cases hletter : c ∈ letters.map (·.1)
  · obtain ⟨m, hm, rfl⟩ := List.mem_map.1 hletter
    have hall : letters.all (fun m => decide (32 ≤ m.2.toNat)) = true := by decide
    have hletter : 32 ≤ m.2.toNat := by simpa using List.all_eq_true.1 hall m hm
    rw [(escapeChar_of_mem m hm).1]
    exact .cons (by decide) (.cons hletter (unbroken_of_all rfl))
  · rw [escapeChar_of_notMem hletter]
    split
    · have hdigit : ∀ d < 16, 32 ≤ (Nat.digitChar d).toNat := by decide
      have hmod : ∀ n, 32 ≤ (Nat.digitChar (n % 16)).toNat := fun n => hdigit _ (Nat.mod_lt n (by omega))
      simp [Unbroken, unitEscape, hexFour, hmod]
    · exact List.forall_mem_singleton.2 (by omega)

/-! ## Strings -/

/-- The piece of a character is joined to the others as the character. -/
theorem joinPieces?_pieceOf (c : Char) (ps : List Piece) : joinPieces? (pieceOf c :: ps) = (joinPieces? ps).map (c :: ·) := by
  unfold pieceOf
  split
  · rename_i h
    have hsurrogate : ∀ last, ¬(0xd800 ≤ c.toNat ∧ c.toNat ≤ last) := by omega
    have hlow : ¬(0xdc00 ≤ c.toNat ∧ c.toNat ≤ 0xdfff) := by omega
    cases ps with
    | nil => simp [joinPieces?, hsurrogate]
    | cons p ps =>
      cases p with
      | char d => simp only [joinPieces?, if_neg (hsurrogate _), Option.map_map, Char.ofNat_toNat, Function.comp_def]
      | unit n => simp only [joinPieces?, if_neg (hsurrogate _), if_neg hlow, Char.ofNat_toNat]
  · rfl

/-- A string is read back up to its closing quote. -/
theorem pieces?_flatMap (cs rest : List Char) :
    pieces? (cs.flatMap (escapeChar false) ++ '"' :: rest) = some (cs.map pieceOf, rest) := by
  induction cs with
  | nil =>
    rw [List.flatMap_nil, List.nil_append, pieces?.eq_def]
    rfl
  | cons c cs ih => rw [List.flatMap_cons, List.append_assoc, pieces?_escapeChar, ih, Option.map_some, List.map_cons]

theorem joinPieces?_map (cs : List Char) : joinPieces? (cs.map pieceOf) = some cs := by
  induction cs with
  | nil => rfl
  | cons c cs ih => rw [List.map_cons, joinPieces?_pieceOf, ih, Option.map_some]

theorem unbroken_renderString (s : String) : Unbroken (renderString false s).toList := by
  rw [renderString, String.toList_ofList]
  refine Unbroken.append (.cons (by decide) fun ch hch => ?_) (unbroken_of_all rfl)
  obtain ⟨c, _, hc⟩ := List.mem_flatMap.1 hch
  exact unbroken_escapeChar c ch hc

end Json

end TokenForest
