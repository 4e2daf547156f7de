import TokenForest.Proofs.Grid.Faults
import TokenForest.Proofs.Grouping
import TokenForest.Proofs.Json.FlatObjects
import TokenForest.Proofs.Json.Lines
import TokenForest.Proofs.TokenFile

/-!
# Writing and reading token streams

Records that are written one object per line are read back, whatever their texts hold. An object may leave out what is read from nothing,
and the lines may have blanks around them and lines of blanks between them.
-/

namespace TokenForest

theorem SymbolClass.ofName_name {c : SymbolClass} (h : c.isKnown = true) : ofName c.name = c := by
  cases c with
  | other name => cases h
  | _ => rfl

namespace TokenRecord

/-! ## Records and their objects -/

variable {r : TokenRecord} {payload : Json} {all members : List (String × Json)} {key : String}

theorem writes_toJson (r : TokenRecord) : Writes r r.toJson := .obj rfl (.refl _) fun _ hm => .inl hm

theorem nodup_keys (h : r.toJson = .obj all) : (all.map (·.1)).Nodup := by
  cases h
  simp only [List.map_cons, List.map_nil]
  decide

theorem scalar_ofInt? {n : Option Int} (h : ∀ i, n = some i → Json.fits64 i = true) : (Json.ofInt? n).Scalar := by
  cases n with
  | none => exact .null
  | some i => exact .int (h i rfl)

/-- All members of a record can be written. -/
theorem Storable.scalar (hr : r.Storable) (h : r.toJson = .obj all) : ∀ m ∈ all, m.2.Scalar := by
  have hint : ∀ n ∈ [r.row, r.column, r.process, r.stage, r.phase], (Json.ofInt? n).Scalar :=
    fun n hn => scalar_ofInt? fun i hi => hr.fits i (hi ▸ hn)
  have hscore : r.score.isFinite = true := Binary64.isFinite_of_inUnit (fault?_eq_none_iff.1 hr.valid).2.2.2
  cases h
  simp only [List.forall_mem_cons] at hint ⊢
  obtain ⟨hrow, hcolumn, hprocess, hstage, hphase, _⟩ := hint
  exact ⟨.str _, .str _, .str _, hrow, hcolumn, hprocess, hstage, hphase, .str _, .float hscore, by simp⟩

/-! ## Members -/

/-- The member is there, or it is at its default and its key is not there. -/
def Gives (payload : Json) (m : String × Json) : Prop :=
  payload.get? m.1 = some m.2 ∨ payload.get? m.1 = none ∧ m ∈ defaults

/-- The members that were kept, in any order, give all of them. -/
theorem gives_of_perm (hkeys : (all.map (·.1)).Nodup) (hsublist : members.Sublist all) (hrest : ∀ m ∈ all, m ∈ members ∨ m ∈ defaults)
    {others : List (String × Json)} (hperm : others.Perm members) : ∀ m ∈ all, Gives (.obj others) m := by
  intro m hm
  have hnodup : (members.map (·.1)).Nodup := hkeys.sublist (hsublist.map _)
  have hget : (Json.obj others).get? m.1 = members.lookup m.1 := (lookup_eq_of_perm hnodup hperm.symm m.1).symm
  rw [Gives, hget]
  by_cases hmem : m ∈ members
  · exact .inl ((lookup_eq_some_iff_mem hnodup).2 hmem)
  · refine .inr ⟨?_, (hrest m hm).resolve_left hmem⟩
    rw [Option.eq_none_iff_forall_ne_some]
    intro v hv
    have hother : (m.1, v) ∈ members := (lookup_eq_some_iff_mem hnodup).1 hv
    have hsame : (m.1, v) = m := List.inj_on_of_nodup_map hkeys (hsublist.subset hother) hm rfl
    exact hmem (hsame ▸ hother)

theorem textField_of_gives {s : String} (h : Gives payload (key, .str s)) : textField payload key = s := by
  rcases h with h | ⟨h, hdefault⟩
  · simp only at h
    rw [textField, h]
    by_cases hs : s = ""
    · simp [Json.isBlank, hs]
    · simp [Json.isBlank, Json.display, hs]
  · have hs : key = "intent_hint" ∧ s = "" := by simpa [defaults] using hdefault
    simp only at h
    rw [textField, h, hs.2]

theorem integerField_of_gives {n : Option Int} (h : Gives payload (key, .ofInt? n)) : integerField payload key = .ok n := by
  rcases h with h | ⟨h, hdefault⟩
  · simp only at h
    rw [integerField, h]
    cases n <;> rfl
  · simp only at h
    rw [integerField, h]
    cases n with
    | none => rfl
    | some i => simp [defaults, Json.ofInt?] at hdefault

theorem scoreField_of_gives {x : Binary64} (h : Gives payload (key, .float x)) : scoreField payload key = .ok x := by
  rcases h with h | ⟨h, hdefault⟩
  · simp only at h
    rw [scoreField, h]
    rfl
  · have hx : key = "lexical_confidence" ∧ x = 1 := by simpa [defaults] using hdefault
    simp only at h
    rw [scoreField, h, hx.2]

/-- A valid record is read from any object that gives its members. -/
theorem ofJson_of_gives (hvalid : r.fault? = none) (h : r.toJson = .obj all) (hgives : ∀ m ∈ all, Gives (.obj members) m) :
    ofJson (.obj members) = .ok r := by
  cases h
  simp only [List.forall_mem_cons] at hgives
  obtain ⟨hclass, htag, hlexeme, hrow, hcolumn, hprocess, hstage, hphase, hhint, hscore, _⟩ := hgives
  have hknown : r.symbolClass.isKnown = true := (fault?_eq_none_iff.1 hvalid).1
  simp only [ofJson, integerField_of_gives hrow, integerField_of_gives hcolumn, integerField_of_gives hprocess,
    integerField_of_gives hstage, integerField_of_gives hphase, scoreField_of_gives hscore, ok_bind, textField_of_gives hclass,
    textField_of_gives htag, textField_of_gives hlexeme, textField_of_gives hhint, SymbolClass.ofName_name hknown]
  rw [check]
  simp only [hvalid]

end TokenRecord

namespace Json

/-- The line of an object begins and ends with a brace, and nothing in it breaks the line. -/
theorem framed_objectText {members : List (String × Json)} (h : ∀ m ∈ members, Scalar m.2) :
    Framed (String.ofList (objectText members)) := by
  obtain ⟨body, hbody⟩ := exists_objectText members
  have hunbroken := unbroken_objectText h
  refine ⟨⟨'\x7b', ?_, rfl⟩, ⟨'\x7d', ?_, rfl⟩, ?_⟩ <;> rw [String.toList_ofList]
  · rw [hbody]
    rfl
  · rw [hbody, ← List.cons_append, List.getLast?_concat]
  · exact fun hfeed => absurd (hunbroken '\n' hfeed) (by decide)

/-- The lines of flat objects are read back by the reader of token files. -/
theorem faithful_compact : Codec.compact.Faithful where
  written _ hflat := ⟨_, fileText_obj hflat.values⟩
  framed members line hflat hline := by
    have hsorted : ∀ m ∈ sortMembers members, Scalar m.2 := fun m hm => hflat.values m ((List.mergeSort_perm _ _).mem_iff.1 hm)
    obtain rfl := Except.ok.inj ((fileText_obj hflat.values).symm.trans hline)
    exact framed_objectText hsorted
  undone members line hflat hline := by
    have hperm : (sortMembers members).Perm members := List.mergeSort_perm _ _
    have hsorted : ∀ m ∈ sortMembers members, Scalar m.2 := fun m hm => hflat.values m (hperm.mem_iff.1 hm)
    obtain rfl := Except.ok.inj ((fileText_obj hflat.values).symm.trans hline)
    exact ⟨_, hperm, read?_objectText hsorted ((hperm.map _).nodup_iff.2 hflat.names)⟩

end Json

namespace TokenFile

open TokenRecord

variable {records : List TokenRecord} {rows values : List Json} {lines : List String} {codec : Json.Codec}

/-- A record's object is one line, and the record is in what is read from it. -/
theorem exists_line (hcodec : codec.Faithful) {r : TokenRecord} {row : Json} (hr : r.Storable) (h : Writes r row) :
    ∃ line, codec.dumps row = .ok line ∧ Json.Framed line ∧ ∃ v, codec.loads line = some v ∧ TokenRecord.ofJson v = .ok r := by
  cases h with
  | @obj all members hall hsublist hrest =>
    have hkeys : (all.map (·.1)).Nodup := nodup_keys hall
    have hflat : Json.Flat members := ⟨hkeys.sublist (hsublist.map _), fun m hm => hr.scalar hall m (hsublist.subset hm)⟩
    obtain ⟨line, hline⟩ := hcodec.written members hflat
    obtain ⟨others, hperm, hloads⟩ := hcodec.undone members line hflat hline
    exact ⟨line, hline, hcodec.framed members line hflat hline, _, hloads,
      ofJson_of_gives hr.valid hall (gives_of_perm hkeys hsublist hrest hperm)⟩

theorem exists_lines (hcodec : codec.Faithful) (hrecords : ∀ r ∈ records, r.Storable) (hrows : List.Forall₂ Writes records rows) :
    ∃ lines values, List.Forall₂ (fun row line => codec.dumps row = .ok line) rows lines ∧ (∀ line ∈ lines, Json.Framed line) ∧
      List.Forall₂ (fun line v => codec.loads line = some v) lines values ∧
      List.Forall₂ (fun v r => TokenRecord.ofJson v = .ok r) values records := by
  induction hrows with
  | nil => exact ⟨[], [], .nil, by simp, .nil, .nil⟩
  | cons hrow _ ih =>
    obtain ⟨hr, hrest⟩ := List.forall_mem_cons.1 hrecords
    obtain ⟨line, htext, hframed, v, hloads, hrecord⟩ := exists_line hcodec hr hrow
    obtain ⟨lines, values, htexts, hframes, hvalues, hall⟩ := ih hrest
    exact ⟨line :: lines, v :: values, .cons htext htexts, List.forall_mem_cons.2 ⟨hframed, hframes⟩, .cons hloads hvalues,
      .cons hrecord hall⟩

/-- Values that are records are converted to them, from any number on. -/
theorem convert_eq (file : String) (h : List.Forall₂ (fun v r => TokenRecord.ofJson v = .ok r) values records) (number : Nat) :
    convert file number values = .ok records := by
  induction h generalizing number with
  | nil => rfl
  | cons hrecord _ ih =>
    rw [convert, hrecord, mapError_ok, ok_bind, ih, ok_bind]
    rfl

/-- However the lines of a file are spaced, the records are read from them. -/
theorem readWith_spaced (file : String) {spaced : List String} (hframed : ∀ line ∈ lines, Json.Framed line)
    (hvalues : List.Forall₂ (fun line v => codec.loads line = some v) lines values)
    (hrecords : List.Forall₂ (fun v r => TokenRecord.ofJson v = .ok r) values records) (hspaced : Json.Spaced lines spaced) :
    readWith codec file (String.intercalate "\n" spaced).toUTF8 = .ok records := by
  have hlines : Json.filledLines (String.intercalate "\n" spaced) = lines := Json.filledLines_intercalate hspaced hframed
  simp only [readWith, Json.Codec.readLinesBytes?, CommandLine.fromUTF8?_toUTF8, Option.bind_some, Json.Codec.readLines?, hlines,
    mapM_eq_some_iff.2 hvalues, convert_eq file hrecords]

/-- With any codec that is faithful to flat objects, records that are written as objects, one per line, are read back. The objects may
leave out members at their defaults, and it makes no difference when blanks are put around the lines and lines of blanks between them. -/
theorem read_linesText (hcodec : codec.Faithful) (file : String) (hrecords : ∀ r ∈ records, r.Storable)
    (hrows : List.Forall₂ Writes records rows) :
    ∃ lines, List.Forall₂ (fun row line => codec.dumps row = .ok line) rows lines ∧
      codec.linesText rows = .ok (String.intercalate "\n" lines ++ "\n") ∧
      readWith codec file (String.intercalate "\n" lines ++ "\n").toUTF8 = .ok records ∧
      ∀ spaced, Json.Spaced lines spaced → readWith codec file (String.intercalate "\n" spaced).toUTF8 = .ok records := by
  obtain ⟨lines, values, htexts, hframed, hvalues, hall⟩ := exists_lines hcodec hrecords hrows
  refine ⟨lines, htexts, ?_, ?_, fun spaced hspaced => readWith_spaced file hframed hvalues hall hspaced⟩
  · rw [Json.Codec.linesText, mapM_of_forall₂ htexts]
    rfl
  · obtain ⟨spaced, hspaced, htext⟩ := Json.exists_spaced lines
    rw [htext]
    exact readWith_spaced file hframed hvalues hall hspaced

/-- A record with a place, whose lexeme has a line break and a quote in it. -/
def placedRecord : TokenRecord := ⟨.terminal, "literal", "a\n\"\u2028", some 0, some (-1), some 7, none, none, "literal", 1⟩

/-- A record at its defaults, whose lexeme is a space. -/
def bareRecord : TokenRecord := ⟨.query, "query", " ", none, none, none, none, none, "", 1⟩

/-- What has to be written of it. -/
def bareRow : Json := .obj [("symbol_class", .str "query"), ("type_tag", .str "query"), ("lexeme", .str " ")]

theorem writes_bareRow : Writes bareRecord bareRow := by
  refine .obj rfl (List.sublist_append_left _ _) ?_
  simp [defaults, bareRecord, SymbolClass.name, Json.ofInt?]

/-- Both records in a file, the second one shortened, with the writer and the reader of token files. -/
theorem read_linesText_shortened : Json.Codec.compact.Faithful ∧ (∀ r ∈ [placedRecord, bareRecord], r.Storable) ∧
    ∃ text, Json.linesText [placedRecord.toJson, bareRow] = .ok text ∧
      read "tokens.jsonl" text.toUTF8 = .ok [placedRecord, bareRecord] := by
  have hstorable : ∀ r ∈ [placedRecord, bareRecord], r.Storable := by
    simp only [List.forall_mem_cons, List.not_mem_nil, false_imp_iff, implies_true, and_true]
    have hplaced : placedRecord.fault? = none := fault?_eq_none_iff.2 ⟨rfl, by decide, by decide, Binary64.inUnit_one⟩
    have hbare : bareRecord.fault? = none := fault?_eq_none_iff.2 ⟨rfl, by decide, by decide, Binary64.inUnit_one⟩
    exact ⟨⟨hplaced, by simp [placedRecord, Json.fits64]⟩, ⟨hbare, by simp [bareRecord]⟩⟩
  have hrows : List.Forall₂ Writes [placedRecord, bareRecord] [placedRecord.toJson, bareRow] :=
    .cons (writes_toJson _) (.cons writes_bareRow .nil)
  obtain ⟨lines, _, htext, hread, _⟩ := read_linesText Json.faithful_compact "tokens.jsonl" hstorable hrows
  exact ⟨Json.faithful_compact, hstorable, _, htext, hread⟩

end TokenFile

end TokenForest
