import TokenForest.Json.Lines
import TokenForest.Proofs.Json.Numbers
import TokenForest.Proofs.Json.Strings

/-!
# Objects without objects inside

An object of texts, numbers and truth values is written on one line and read back with its members in order of their keys. The line holds
no control character and stands between two braces, so nothing is lost when it is split off and stripped.
-/

namespace TokenForest

namespace Json

/-! ## Tokens -/

/-- The text is cut into these tokens, whenever the fuel is no less than its length. -/
def Lexes (dialect : Dialect) (cs : List Char) (tokens : List Token) : Prop :=
  ∀ fuel, cs.length ≤ fuel → tokensWith? dialect fuel cs = some tokens

variable {dialect : Dialect} {c : Char} {rest text : List Char} {token : Token} {tokens : List Token} {v : Json}

theorem lexes_nil (dialect : Dialect) : Lexes dialect [] [] := by
  intro fuel _
  cases fuel <;> rfl

theorem Lexes.tokens? (h : Lexes dialect rest tokens) : tokens? dialect rest = some tokens := h _ (Nat.le_refl _)

/-- What a first token leaves has less fuel and is shorter. -/
theorem lexes_of_step {cs : List Char} (hne : cs ≠ [])
    (h : ∀ fuel, cs.length ≤ fuel + 1 → tokensWith? dialect (fuel + 1) cs = some tokens) : Lexes dialect cs tokens := by
  intro fuel hfuel
  cases fuel with
  | zero => exact absurd (List.length_eq_zero_iff.1 (Nat.le_zero.1 hfuel)) hne
  | succ fuel => exact h fuel hfuel

theorem Lexes.punctuation (h : Lexes dialect rest tokens) (hblank : isJsonBlank c = false) (hc : punctuation? c = some token) :
    Lexes dialect (c :: rest) (token :: tokens) := by
  refine lexes_of_step (List.cons_ne_nil _ _) fun fuel hfuel => ?_
  rw [tokensWith?, hblank, if_neg Bool.false_ne_true]
  simp only [hc]
  rw [h fuel (by simpa using hfuel), Option.map_some]

theorem Lexes.string (h : Lexes dialect rest tokens) (s : String) :
    Lexes dialect ((renderString false s).toList ++ rest) (.atom (str s) :: tokens) := by
  have htext : (renderString false s).toList ++ rest = '"' :: (s.toList.flatMap (escapeChar false) ++ '"' :: rest) := by
    simp [renderString]
  rw [htext]
  refine lexes_of_step (List.cons_ne_nil _ _) fun fuel hfuel => ?_
  have hrest : rest.length ≤ fuel := by
    simp only [List.length_cons, List.length_append] at hfuel
    omega
  rw [tokensWith?]
  simp [isJsonBlank, punctuation?, pieces?_flatMap, joinPieces?_map, h fuel hrest]

/-- The characters that are blanks or tokens of their own, or start a string. -/
def marks : List Char := [' ', '\t', '\n', '\r', '[', ']', '\x7b', '\x7d', ',', ':', '"']

/-- Any other character starts a number or a word. -/
theorem start_of_notMem (h : c ∉ marks) : isJsonBlank c = false ∧ punctuation? c = none ∧ c ≠ '"' := by
  simp only [marks, List.mem_cons, List.not_mem_nil, or_false, not_or] at h
  refine ⟨by simp [isJsonBlank, h], ?_, h.2.2.2.2.2.2.2.2.2.2⟩
  unfold punctuation?
  split
  all_goals first | rfl | simp at h

theorem notMem_marks_of_isNumberChar (h : isNumberChar c = true) : c ∉ marks := by
  have hall : (marks.all fun c => !isNumberChar c) = true := by decide
  intro hc
  simpa [h] using List.all_eq_true.1 hall c hc

theorem Lexes.literal (h : Lexes dialect rest tokens) (htext : IsLiteral dialect text v)
    (hstop : ∀ c ∈ rest.head?, isNumberChar c = false) : Lexes dialect (text ++ rest) (.atom v :: tokens) := by
  obtain ⟨htake, hdrop⟩ := takeWhile_append_stop htext.marks hstop
  obtain ⟨c, more, rfl⟩ := List.exists_cons_of_ne_nil htext.filled
  have hc := htext.marks c (by simp)
  obtain ⟨hblank, hpunctuation, hquote⟩ := start_of_notMem (notMem_marks_of_isNumberChar hc)
  refine lexes_of_step (List.cons_ne_nil _ _) fun fuel hfuel => ?_
  have hrest : rest.length ≤ fuel := by
    simp only [List.cons_append, List.length_cons, List.length_append] at hfuel
    omega
  rw [List.cons_append] at htake hdrop ⊢
  rw [tokensWith?, hblank, if_neg Bool.false_ne_true]
  simp only [hpunctuation, if_neg hquote, if_pos hc, htake, hdrop, htext.value, h fuel hrest, Option.bind_eq_bind, Option.bind_some,
    Option.pure_def]

/-- A bare word, taken up to what is no letter. -/
theorem Lexes.word (h : Lexes dialect rest tokens) (hstart : ∃ c more, text = c :: more ∧ c ∉ marks ∧ isNumberChar c = false)
    (hletters : text.all Char.isAlpha = true) (hv : word? (String.ofList text) = some v) (hstop : ∀ c ∈ rest.head?, c.isAlpha = false) :
    Lexes dialect (text ++ rest) (.atom v :: tokens) := by
  obtain ⟨htake, hdrop⟩ := takeWhile_append_stop (List.all_eq_true.1 hletters) hstop
  obtain ⟨c, more, rfl, hc, hnumber⟩ := hstart
  obtain ⟨hblank, hpunctuation, hquote⟩ := start_of_notMem hc
  refine lexes_of_step (List.cons_ne_nil _ _) fun fuel hfuel => ?_
  have hrest : rest.length ≤ fuel := by
    simp only [List.cons_append, List.length_cons, List.length_append] at hfuel
    omega
  rw [List.cons_append] at htake hdrop ⊢
  rw [tokensWith?, hblank, if_neg Bool.false_ne_true]
  simp only [hpunctuation, if_neg hquote, hnumber, if_neg Bool.false_ne_true, htake, hdrop, hv, h fuel hrest, Option.bind_eq_bind,
    Option.bind_some, Option.pure_def]

/-! ## Values -/

/-- The text of a value without parts. -/
def scalarText (v : Json) : List Char := (renderAt .compactFile 0 v).toList

/-- It stands on one line at any level of nesting. -/
theorem Scalar.toList_renderAt (h : Scalar v) (depth : Nat) : (renderAt .compactFile depth v).toList = scalarText v := by
  unfold scalarText
  cases h <;> simp only [renderAt]

/-- The text of a value is its token, up to the end of its member. -/
theorem Lexes.scalar (h : Lexes .file rest tokens) (hv : Scalar v) (hstop : ∀ c ∈ rest.head?, c = ',' ∨ c = '\x7d') :
    Lexes .file (scalarText v ++ rest) (.atom v :: tokens) := by
  have hnumber : ∀ c ∈ rest.head?, isNumberChar c = false := by
    intro c hc
    rcases hstop c hc with rfl | rfl <;> rfl
  have hletter : ∀ c ∈ rest.head?, c.isAlpha = false := by
    intro c hc
    rcases hstop c hc with rfl | rfl <;> rfl
  unfold scalarText
  cases hv with
  | null =>
    simp only [renderAt]
    exact h.word ⟨'n', _, rfl, by decide, rfl⟩ (by decide) (by decide) hletter
  | bool b =>
    simp only [renderAt]
    cases b with
    | true => exact h.word ⟨'t', _, rfl, by decide, rfl⟩ (by decide) (by decide) hletter
    | false => exact h.word ⟨'f', _, rfl, by decide, rfl⟩ (by decide) (by decide) hletter
  | int hfits =>
    simp only [renderAt]
    exact h.literal (isLiteral_toString fun _ => hfits) hnumber
  | float hfinite =>
    simp only [renderAt, renderFloat, hfinite, Bool.not_true, Bool.and_false, Bool.false_eq_true, if_false]
    exact h.literal (isLiteral_text _ hfinite) hnumber
  | str s =>
    simp only [renderAt]
    exact h.string s

/-! ## Members -/

/-- The text of a member. -/
def memberLine (m : String × Json) : List Char := (renderString false m.1).toList ++ ':' :: scalarText m.2

/-- The text of the members after the first one, and of the closing brace. -/
def tailText : List (String × Json) → List Char
  | [] => ['\x7d']
  | m :: ms => ',' :: (memberLine m ++ tailText ms)

/-- The tokens of a member. -/
def memberTokens (m : String × Json) : List Token := [.atom (str m.1), .colon, .atom m.2]

/-- The tokens of the members after the first one, and of the closing brace. -/
def tailTokens : List (String × Json) → List Token
  | [] => [.closeObject]
  | m :: ms => .comma :: (memberTokens m ++ tailTokens ms)

variable {m : String × Json} {ms : List (String × Json)}

theorem head_tailText (ms : List (String × Json)) : ∀ c ∈ (tailText ms).head?, c = ',' ∨ c = '\x7d' := by
  cases ms <;> simp [tailText]

theorem Lexes.member (h : Lexes .file rest tokens) (hm : Scalar m.2) (hstop : ∀ c ∈ rest.head?, c = ',' ∨ c = '\x7d') :
    Lexes .file (memberLine m ++ rest) (memberTokens m ++ tokens) := by
  have hvalue := (h.scalar hm hstop).punctuation (c := ':') rfl rfl
  have hmember := hvalue.string m.1
  simpa only [memberLine, memberTokens, List.append_assoc, List.cons_append, List.nil_append] using hmember

theorem lexes_tailText (h : ∀ m ∈ ms, Scalar m.2) : Lexes .file (tailText ms) (tailTokens ms) := by
  induction ms with
  | nil => exact (lexes_nil .file).punctuation rfl rfl
  | cons m ms ih =>
    obtain ⟨hm, hms⟩ := List.forall_mem_cons.1 h
    exact ((ih hms).member hm (head_tailText ms)).punctuation rfl rfl

/-! ## The machine -/

theorem setMember_of_notMem {done : List (String × Json)} {key : String} (h : key ∉ done.map (·.1)) (v : Json) :
    setMember done key v = done ++ [(key, v)] := by
  rw [setMember, if_neg]
  simpa using h

/-- The machine adds the members one by one to those that are done. -/
theorem run?_tailTokens {done : List (String × Json)} {key : String} (v : Json)
    (hkeys : ((done ++ (key, v) :: ms).map (·.1)).Nodup) :
    run? .file (.afterValue v) [.member done key] (tailTokens ms) = some (obj (done ++ (key, v) :: ms)) := by
  induction ms generalizing done key v with
  | nil =>
    rw [List.map_append] at hkeys
    have hkey : key ∉ done.map (·.1) := fun hmem => (List.nodup_append.1 hkeys).2.2 key hmem key (by simp) rfl
    rw [← setMember_of_notMem hkey]
    rfl
  | cons m ms ih =>
    have hrest : run? .file (.afterValue m.2) [.member (done ++ [(key, v)]) m.1] (tailTokens ms) =
        some (obj ((done ++ [(key, v)]) ++ m :: ms)) := ih m.2 (by simpa using hkeys)
    rw [List.map_append] at hkeys
    have hkey : key ∉ done.map (·.1) := fun hmem => (List.nodup_append.1 hkeys).2.2 key hmem key (by simp) rfl
    rw [List.append_assoc, List.singleton_append] at hrest
    rw [← hrest, tailTokens, ← setMember_of_notMem hkey]
    rfl

/-! ## Objects -/

/-- The text of an object with members in order. -/
def objectText : List (String × Json) → List Char
  | [] => ['\x7b', '\x7d']
  | m :: ms => '\x7b' :: (memberLine m ++ tailText ms)

theorem exists_tailText (ms : List (String × Json)) : ∃ front, tailText ms = front ++ ['\x7d'] := by
  induction ms with
  | nil => exact ⟨[], rfl⟩
  | cons m ms ih =>
    obtain ⟨front, hfront⟩ := ih
    exact ⟨',' :: (memberLine m ++ front), by rw [tailText, hfront, List.cons_append, List.append_assoc]⟩

/-- The text of an object stands between two braces. -/
theorem exists_objectText (ms : List (String × Json)) : ∃ body, objectText ms = '\x7b' :: (body ++ ['\x7d']) := by
  cases ms with
  | nil => exact ⟨[], rfl⟩
  | cons m ms =>
    obtain ⟨front, hfront⟩ := exists_tailText ms
    exact ⟨memberLine m ++ front, by rw [objectText, hfront, List.append_assoc]⟩

/-- The text of an object is read back. -/
theorem read?_objectText (h : ∀ m ∈ ms, Scalar m.2) (hkeys : (ms.map (·.1)).Nodup) :
    read? .file (String.ofList (objectText ms)) = some (obj ms) := by
  rw [read?, String.toList_ofList]
  cases ms with
  | nil =>
    have htokens : Lexes .file (objectText []) [.openObject, .closeObject] :=
      ((lexes_nil .file).punctuation rfl rfl).punctuation rfl rfl
    rw [htokens.tokens?]
    rfl
  | cons m ms =>
    obtain ⟨hm, hms⟩ := List.forall_mem_cons.1 h
    have htokens : Lexes .file (objectText (m :: ms)) (.openObject :: (memberTokens m ++ tailTokens ms)) :=
      ((lexes_tailText hms).member hm (head_tailText ms)).punctuation rfl rfl
    rw [htokens.tokens?, Option.bind_some]
    exact run?_tailTokens m.2 hkeys

theorem unbroken_of_isLiteral (h : IsLiteral dialect text v) : Unbroken text := by
  intro c hc
  have hmark := h.marks c hc
  simp only [isNumberChar, Bool.or_eq_true, decide_eq_true_eq] at hmark
  rcases hmark with ((((hdigit | rfl) | rfl) | rfl) | rfl) | rfl
  · have hzero : '0'.toNat ≤ c.toNat := (Char.isDigit_iff_toNat.1 hdigit).1
    exact Nat.le_trans (by decide) hzero
  all_goals decide

theorem unbroken_scalarText (h : Scalar v) : Unbroken (scalarText v) := by
  unfold scalarText
  cases h with
  | null =>
    rw [renderAt]
    exact unbroken_of_all (by decide)
  | bool b =>
    rw [renderAt]
    cases b <;> exact unbroken_of_all (by decide)
  | int hfits =>
    rw [renderAt]
    have hliteral : IsLiteral .file _ _ := isLiteral_toString fun _ => hfits
    exact unbroken_of_isLiteral hliteral
  | float hfinite =>
    simp only [renderAt, renderFloat, hfinite, Bool.not_true, Bool.and_false, Bool.false_eq_true, if_false]
    have hliteral : IsLiteral .file _ _ := isLiteral_text Style.compactFile.numbers hfinite
    exact unbroken_of_isLiteral hliteral
  | str s =>
    rw [renderAt]
    exact unbroken_renderString s

theorem unbroken_memberLine (h : Scalar m.2) : Unbroken (memberLine m) :=
  (unbroken_renderString m.1).append (.cons (by decide) (unbroken_scalarText h))

theorem unbroken_tailText (h : ∀ m ∈ ms, Scalar m.2) : Unbroken (tailText ms) := by
  induction ms with
  | nil => exact unbroken_of_all rfl
  | cons m ms ih =>
    obtain ⟨hm, hms⟩ := List.forall_mem_cons.1 h
    exact .cons (by decide) ((unbroken_memberLine hm).append (ih hms))

theorem unbroken_objectText (h : ∀ m ∈ ms, Scalar m.2) : Unbroken (objectText ms) := by
  cases ms with
  | nil => exact unbroken_of_all rfl
  | cons m ms =>
    obtain ⟨hm, hms⟩ := List.forall_mem_cons.1 h
    exact .cons (by decide) ((unbroken_memberLine hm).append (unbroken_tailText hms))

/-! ## Files -/

/-- The members of a flat object in the order in which they are written. -/
def sortMembers (members : List (String × Json)) : List (String × Json) := members.mergeSort (fun a b => decide (a.1 ≤ b.1))

theorem renderMembers_eq (style : Style) (depth : Nat) (members : List (String × Json)) :
    renderMembers style depth members = members.map (fun m => (m.1, renderAt style depth m.2)) := by
  induction members with
  | nil => rfl
  | cons m members ih => rw [renderMembers, ih, List.map_cons]

theorem memberFaults_eq (depth : Nat) (members : List (String × Json)) :
    memberFaults depth members = members.map (fun m => (m.1, writeFaultAt? depth m.2)) := by
  induction members with
  | nil => rfl
  | cons m members ih => rw [memberFaults, ih, List.map_cons]

theorem writeFaultAt?_scalar (h : Scalar v) (depth : Nat) : writeFaultAt? depth v = none := by
  cases h with
  | int hfits => rw [writeFaultAt?, if_pos hfits]
  | _ => rfl

/-- A rendered member. -/
theorem toList_memberText (hm : Scalar m.2) :
    (memberText .compactFile (m.1, renderAt .compactFile 1 m.2)).toList = memberLine m := by
  have hcolon : (if Style.compactFile.indent.isSome = true then ": " else ":") = ":" := rfl
  have hascii : Style.compactFile.asciiOnly = false := rfl
  rw [memberText, hcolon, hascii, memberLine, ← hm.toList_renderAt 1]
  simp

/-- Rendered members between the braces. -/
theorem enclose_members (h : ∀ m ∈ ms, Scalar m.2) : enclose .compactFile 0 "\x7b" "\x7d"
    ((ms.map (fun m => (m.1, renderAt .compactFile 1 m.2))).map (memberText .compactFile)) = String.ofList (objectText ms) := by
  have hbreak : ∀ depth, lineBreak .compactFile depth = "" := fun _ => rfl
  rw [enclose, hbreak, hbreak, List.map_map]
  cases ms with
  | nil => rfl
  | cons m ms =>
    obtain ⟨hm, hms⟩ := List.forall_mem_cons.1 h
    have htail : ms.flatMap (fun m => ',' :: (memberText .compactFile (m.1, renderAt .compactFile 1 m.2)).toList) ++ ['\x7d'] =
        tailText ms := by
      clear h
      induction ms with
      | nil => rfl
      | cons m ms ih =>
        obtain ⟨hm, hms⟩ := List.forall_mem_cons.1 hms
        rw [List.flatMap_cons, List.append_assoc, ih hms, tailText, toList_memberText hm, List.cons_append]
    rw [← String.toList_inj, List.map_cons, List.isEmpty_cons, if_neg Bool.false_ne_true]
    simp only [String.toList_append, toList_intercalate_cons, String.toList_ofList, List.flatMap_map, Function.comp_apply, objectText,
      toList_memberText hm]
    rw [← htail]
    simp

/-- A flat object is written on one line. -/
theorem fileText_obj {members : List (String × Json)} (h : ∀ m ∈ members, Scalar m.2) :
    fileText .compactFile (obj members) = .ok (String.ofList (objectText (sortMembers members))) := by
  have hfault : writeFaultAt? 0 (obj members) = none := by
    rw [writeFaultAt?, if_neg (by decide), memberFaults_eq, List.findSome?_eq_none_iff]
    intro entry hentry
    obtain ⟨m, hm, rfl⟩ := List.mem_map.1 (List.mem_mergeSort.1 hentry)
    exact writeFaultAt?_scalar (h m hm) 1
  have hsort : (sortMembers members).map (fun m => (m.1, renderAt .compactFile 1 m.2)) =
      arrange .compactFile (renderMembers .compactFile 1 members) := by
    rw [renderMembers_eq]
    exact List.map_mergeSort fun _ _ _ _ => rfl
  have htext : render .compactFile (obj members) = String.ofList (objectText (sortMembers members)) := by
    rw [render, renderAt, ← hsort]
    exact enclose_members fun m hm => h m (List.mem_mergeSort.1 hm)
  simp only [fileText, hfault, htext]

end Json

end TokenForest
