import TokenForest.CommandLine
import TokenForest.Proofs.Outcomes
import TokenForest.Proofs.Record

/-!
# Token files

A file whose lines are all JSON gives one record for each line that is not blank, or it is refused for the first line that holds no
record. A line with an object is refused with its number, and the command line ends with the exit code 2; a line with anything else stops
the program.
-/

namespace TokenForest

namespace TokenFile

variable {text : String} {bytes : ByteArray} {v : Json} {fault : TokenRecord.Fault} {lines front : List String}

theorem Stops.cons {line : String} {r : TokenRecord} (hline : Holds line r) (h : Stops lines front v fault) :
    Stops (line :: lines) (line :: front) v fault := by
  obtain ⟨last, back, rfl, hlast⟩ := h.split
  exact ⟨⟨last, back, rfl, hlast⟩, List.forall_mem_cons.2 ⟨⟨r, hline⟩, h.before⟩, h.fault⟩

/-! ## Reading -/

/-- The values of some lines are converted one after the other, all of them or up to the first that is no record. -/
theorem convert_spec (file : String) (number : Nat) {values : List Json}
    (h : List.Forall₂ (fun line v => Json.read? .file line = some v) lines values) :
    (∃ records, convert file number values = .ok records ∧ List.Forall₂ Holds lines records) ∨
      ∃ front v fault, Stops lines front v fault ∧ convert file number values = .error (lineFault file (number + front.length) fault) := by
  induction h generalizing number with
  | nil => exact .inl ⟨[], rfl, .nil⟩
  | @cons line v lines rest hline _ ih =>
    rw [convert]
    cases hv : TokenRecord.ofJson v with
    | error fault => exact .inr ⟨[], v, fault, ⟨⟨line, lines, rfl, hline⟩, by simp, hv⟩, rfl⟩
    | ok r =>
      have hholds : Holds line r := ⟨v, hline, hv⟩
      rw [mapError_ok, ok_bind]
      rcases ih (number + 1) with ⟨records, hrest, hall⟩ | ⟨front, w, fault, hstops, hrest⟩
      · rw [hrest, ok_bind]
        exact .inl ⟨r :: records, rfl, .cons hholds hall⟩
      · rw [hrest]
        refine .inr ⟨line :: front, w, fault, hstops.cons hholds, ?_⟩
        rw [List.length_cons, Nat.add_comm front.length, ← Nat.add_assoc]
        rfl

/-- A file of JSON lines is read as a whole, or up to the first line that holds no record. -/
theorem read_spec (file : String) (htext : String.fromUTF8? bytes = some text)
    (hjson : ∀ line ∈ Json.filledLines text, ∃ v, Json.read? .file line = some v) :
    (∃ records, read file bytes = .ok records ∧ List.Forall₂ Holds (Json.filledLines text) records) ∨
      ∃ front v fault, Stops (Json.filledLines text) front v fault ∧ read file bytes = .error (lineFault file (front.length + 1) fault) := by
  obtain ⟨values, hvalues⟩ := exists_mapM_eq_some hjson
  have hread : read file bytes = convert file 1 values := by
    have hlines : Json.Codec.compact.readLines? text = some values := hvalues
    simp only [read, readWith, Json.Codec.readLinesBytes?, htext, Option.bind_some, hlines]
  rw [hread]
  simpa only [Nat.add_comm 1] using convert_spec file 1 (mapM_eq_some_iff.1 hvalues)

/-- A line that holds an object is refused with its number. -/
theorem Stops.lineFault_of_object {members : List (String × Json)} (h : Stops lines front (.obj members) fault) (file : String)
    (number : Nat) : lineFault file number fault = .recordLine file number fault := by
  obtain ⟨line, _, _, hline⟩ := h.split
  exact if_pos (TokenRecord.located_ofJson (Json.machine_of_read? rfl hline) fault h.fault)

/-- A line that holds anything else stops the reading as it is. -/
theorem Stops.lineFault_of_not_object (hv : ∀ members, v ≠ .obj members) (h : Stops lines front v fault) (file : String) (number : Nat) :
    lineFault file number fault = .record (.notAnObject v.kindName) := by
  have hfault := h.fault
  rw [TokenRecord.ofJson_of_not_object hv] at hfault
  cases hfault
  rfl

end TokenFile

namespace CommandLine

open TokenFile

variable {files : FileTree} {args : List String} {path : Path} {bytes : ByteArray} {text : String}

/-- A token file that is not read stops the run. -/
theorem run_of_read_error {fault : Fault} (hstarts : Starts files args path bytes) (h : TokenFile.read path.text bytes = .error fault) :
    run files args = if isInputFault fault then .ok (.refused files fault) else .error fault := by
  obtain ⟨o, config, hparse, htokens, hconfig, hfile⟩ := hstarts
  have hbatch : batchOf files o path = .error fault := by
    rw [batchOf, hconfig, ok_bind, hfile, mapError_ok, ok_bind, h]
    rfl
  simp only [run, hparse, htokens, runOptions, hbatch]

/-- A token file of JSON lines gives one record for each line that is not blank. Otherwise it is refused for the first line that holds no
record, when this is a line with an object: the run then ends with the exit code 2, without a report. A line with anything else is not
taken for a fault of the input, and the run does not end in good order. -/
theorem run_tokenFile (path : Path) (htext : String.fromUTF8? bytes = some text)
    (hjson : ∀ line ∈ Json.filledLines text, ∃ v, Json.read? .file line = some v) :
    (∃ records, TokenFile.read path.text bytes = .ok records ∧ List.Forall₂ Holds (Json.filledLines text) records) ∨
      ∃ front v fault, Stops (Json.filledLines text) front v fault ∧
        ((∃ members, v = .obj members) →
          TokenFile.read path.text bytes = .error (.recordLine path.text (front.length + 1) fault) ∧
            (Fault.recordLine path.text (front.length + 1) fault).reason? = some "invalid_record" ∧
            ∀ files args, Starts files args path bytes →
              ∃ outcome, run files args = .ok outcome ∧ outcome.exitCode = 2 ∧ outcome.report = none ∧ outcome.files = files) ∧
        ((∀ members, v ≠ .obj members) →
          TokenFile.read path.text bytes = .error (.record (.notAnObject v.kindName)) ∧
            ∀ files args, Starts files args path bytes → run files args = .error (.record (.notAnObject v.kindName))) := by
  rcases read_spec path.text htext hjson with hread | ⟨front, v, fault, hstops, hread⟩
  · exact .inl hread
  refine .inr ⟨front, v, fault, hstops, ?_, ?_⟩
  · rintro ⟨members, rfl⟩
    rw [hstops.lineFault_of_object] at hread
    refine ⟨hread, rfl, fun files args hstarts => ?_⟩
    exact ⟨_, run_of_read_error hstarts hread, rfl, rfl, rfl⟩
  · intro hv
    rw [hstops.lineFault_of_not_object hv] at hread
    exact ⟨hread, fun files args hstarts => run_of_read_error hstarts hread⟩

/-- A tree with one file for the tokens. -/
def withTokens (content : String) : FileTree := ⟨[], [(["tokens.jsonl"], .file content.toUTF8)]⟩

theorem starts_withTokens (content : String) :
    Starts (withTokens content) ["--tokens", "tokens.jsonl"] (.ofText "tokens.jsonl") content.toUTF8 :=
  ⟨{ Options.initial with tokens := some (.ofText "tokens.jsonl") }, .default, by decide +kernel, rfl, rfl, rfl⟩

theorem fromUTF8?_toUTF8 (text : String) : String.fromUTF8? text.toUTF8 = some text := dif_pos text.isValidUTF8

/-- One line with an object that has no members. -/
def bareLine : String := "\x7b\x7d"

theorem run_tokenFile_bareLine :
    TokenFile.read "tokens.jsonl" bareLine.toUTF8 = .error (.recordLine "tokens.jsonl" 1 (.unknownClass "")) ∧
      ∃ outcome, run (withTokens bareLine) ["--tokens", "tokens.jsonl"] = .ok outcome ∧ outcome.exitCode = 2 ∧ outcome.report = none := by
  have hlines : Json.filledLines bareLine = [bareLine] := by decide +kernel
  have hvalue : Json.read? .file bareLine = some (.obj []) := by decide +kernel
  have hfault : TokenRecord.ofJson (.obj []) = .error (.unknownClass "") := by decide +kernel
  have hjson : ∀ line ∈ Json.filledLines bareLine, ∃ v, Json.read? .file line = some v := by
    rw [hlines]
    exact List.forall_mem_singleton.2 ⟨_, hvalue⟩
  rcases run_tokenFile (.ofText "tokens.jsonl") (fromUTF8?_toUTF8 bareLine) hjson with
    ⟨records, _, hall⟩ | ⟨front, v, fault, hstops, hobject, _⟩
  · rw [hlines] at hall
    obtain ⟨r, _, w, hw, hr⟩ := exists_of_forall₂_left hall (List.mem_singleton.2 rfl)
    rw [hvalue] at hw
    cases hw
    rw [hfault] at hr
    cases hr
  · obtain ⟨line, back, hsplit, hline⟩ := hstops.split
    rw [hlines] at hsplit
    obtain ⟨rfl, rfl, rfl⟩ : front = [] ∧ line = bareLine ∧ back = [] := by
      simpa [List.singleton_eq_append_iff] using hsplit
    rw [hvalue] at hline
    cases hline
    have hstops' := hstops.fault
    rw [hfault] at hstops'
    cases hstops'
    obtain ⟨hread, _, hrun⟩ := hobject ⟨[], rfl⟩
    obtain ⟨outcome, hout, hexit, hreport, _⟩ := hrun _ _ (starts_withTokens bareLine)
    exact ⟨hread, outcome, hout, hexit, hreport⟩

/-- A line with an array is no fault of the input: the run does not end with an exit code. -/
theorem array_line_escapes :
    TokenFile.read "tokens.jsonl" "[]".toUTF8 = .error (.record (.notAnObject "list")) ∧
      (Fault.record (.notAnObject "list")).reason? = none ∧
      run (withTokens "[]") ["--tokens", "tokens.jsonl"] = .error (.record (.notAnObject "list")) := by
  have hread : TokenFile.read "tokens.jsonl" "[]".toUTF8 = .error (.record (.notAnObject "list")) := by decide +kernel
  exact ⟨hread, rfl, run_of_read_error (starts_withTokens "[]") hread⟩

end CommandLine

end TokenForest
