import TokenForest.Proofs.Resolution.Trials
import TokenForest.Proofs.Session
import TokenForest.Resolution.Optimal

/-!
# The scores of candidates

A candidate has the tag of its reading, and the intent and the threshold that the symbol has under the tag and the hint of the reading.
Its confidence is that of the first reading that is tried under the tag: the name of a reading, under which its confidence is stored,
carries the tag alone. It is the confidence of the reading itself where all readings that fit under the tag have one hint.
-/

namespace TokenForest

namespace Resolution

variable {c : Context} {p : Position} {s : Symbol} {reading : Reading} {candidate : Candidate}

/-- A reading that is tried with the confidence of the first one under its tag makes a candidate that stands for it. -/
theorem standsFor_of_trial (hscorer : c.scorer = .standard) (hreading : reading ∈ c.readingsAt p s) {b : Breakdown}
    (hb : c.breakdown (reread s (standIn (c.readingsAt p s) reading)) p = .ok b) :
    StandsFor c p s reading (trial c p s reading b).1 := by
  have hintent : c.intentAs p (reread s reading) = c.intentAs p (s.retag reading.typeTag reading.hint) :=
    Context.intentAs_nameless (nameless_reread s reading)
  rw [Context.breakdown_nameless hscorer (nameless_reread s _)] at hb
  obtain ⟨hmem, htag⟩ := standIn_mem hreading
  refine ⟨rfl, hintent, congrArg c.config.threshold hintent, ⟨b, hb, rfl⟩, fun hsame => ⟨b, ?_, rfl⟩⟩
  rwa [htag, hsame _ hmem htag] at hb

/-- The candidates of a resolution stand for the readings that are tried. -/
theorem candidates_of_outcome (hscorer : c.scorer = .standard) (hs : c.grid.symbolAt? p = some s) {r : Resolution}
    (h : outcome c p = .ok r) : List.Forall₂ (StandsFor c p s) (c.readingsAt p s) r.candidates := by
  obtain ⟨s', original, hs', _, hweighed⟩ := outcome_eq_ok h
  cases hs.symm.trans hs'
  have hcandidates := hweighed.candidates
  rw [List.forall₂_iff_get] at hcandidates ⊢
  refine ⟨hcandidates.1, fun i hi hi' => ?_⟩
  obtain ⟨b, hb, hcandidate⟩ := hcandidates.2 i hi hi'
  rw [hcandidate]
  exact standsFor_of_trial hscorer (List.get_mem _ _) hb

open Session in
/-- The candidates of a resolution stand for the readings that are tried, whatever was asked before; the resolution stops only at a
reading whose hint is not on the list. -/
theorem resolve_candidates {records : List TokenRecord} {staged : Bool} {source : Grammar} {grid : Grid}
    (hgrid : Grid.organize records staged source = .ok grid) {config : Config} (hvalid : config.validate = .ok ())
    (steps : List Step) (grammar : Grammar) (hs : grid.symbolAt? p = some s) :
    (∃ r, resolutionAfter grid steps config grammar p = .ok r ∧
      List.Forall₂ (StandsFor (.standard grid config grammar) p s) ((Context.standard grid config grammar).readingsAt p s) r.candidates) ∨
      ∃ fault, resolutionAfter grid steps config grammar p = .error fault ∧ (Context.standard grid config grammar).Misread fault := by
  refine (resolutionAfter_answers hgrid hvalid steps grammar hs).imp_left ?_
  rintro ⟨r, hr, houtcome⟩
  exact ⟨r, hr, candidates_of_outcome (c := .standard grid config grammar) rfl hs houtcome⟩

/-! ## Two readings under one tag -/

/-- The first of two readings of a sign under one tag. -/
def assigningWord : Reading := ⟨.terminal, "word", .operatorAssign, .oneOf ["@"]⟩

/-- The second one, under another hint. -/
def literalWord : Reading := ⟨.terminal, "word", .literal, .oneOf ["@"]⟩

/-- A grammar with names and the two readings of the sign. -/
def wordGrammar : Grammar := { Grammar.default with readings := [⟨.terminal, "identifier", .identifier, .identifier⟩, assigningWord, literalWord] }

/-- The sign, taken for a name. -/
def signRecords : List TokenRecord := [⟨.terminal, "identifier", "@", some 0, some 0, none, none, none, "", 1⟩]

/-- The symbol of the sign. -/
def signSymbol : Symbol := ⟨Grid.symbolName 1 ⟨0, 0, none⟩, .terminal, "@", "identifier", .identifier, 1, none, none, none⟩

/-- The grid of the sign. -/
def signGrid : Grid := ⟨false, [(⟨0, 0, none⟩, signSymbol)]⟩

theorem organize_signRecords : Grid.organize signRecords signGrid.staged wordGrammar = .ok signGrid :=
  Grid.organize_of_ordered (by decide +kernel) (by decide) (by decide)

theorem known_wordGrammar : ∀ r ∈ wordGrammar.readings, r.hint.isKnown = true := by decide

theorem readingsAt_sign :
    (Context.standard signGrid .default wordGrammar).readingsAt ⟨0, 0, none⟩ signSymbol = [assigningWord, literalWord] := by decide

/-- The candidates of the sign stand for its two readings. -/
theorem resolve_candidates_sign : ∃ r, Session.resolutionAfter signGrid [] .default wordGrammar ⟨0, 0, none⟩ = .ok r ∧
    List.Forall₂ (StandsFor (.standard signGrid .default wordGrammar) ⟨0, 0, none⟩ signSymbol) [assigningWord, literalWord]
      r.candidates := by
  have hs : signGrid.symbolAt? ⟨0, 0, none⟩ = some signSymbol := rfl
  rcases resolve_candidates organize_signRecords Config.validate_default [] wordGrammar hs with ⟨r, hr, hcandidates⟩ | ⟨_, _, hmisread⟩
  · exact ⟨r, hr, readingsAt_sign ▸ hcandidates⟩
  · exact absurd hmisread (Session.not_misread known_wordGrammar)

/-- As a literal the sign has another confidence than as an assignment. -/
theorem breakdown_sign : (match
      (Context.standard signGrid .default wordGrammar).breakdown (signSymbol.retag assigningWord.typeTag assigningWord.hint) ⟨0, 0, none⟩,
      (Context.standard signGrid .default wordGrammar).breakdown (signSymbol.retag literalWord.typeTag literalWord.hint) ⟨0, 0, none⟩ with
    | .ok assigning, .ok literal => decide (assigning.psi < literal.psi)
    | _, _ => false) = true := by decide +kernel

/-- Not every candidate has the confidence of its own reading: the second one has that of the first. -/
theorem candidate_of_sameTag : ∃ r, Session.resolutionAfter signGrid [] .default wordGrammar ⟨0, 0, none⟩ = .ok r ∧
    ¬List.Forall₂ (OwnScore (.standard signGrid .default wordGrammar) ⟨0, 0, none⟩ signSymbol) [assigningWord, literalWord]
      r.candidates := by
  have hs : signGrid.symbolAt? ⟨0, 0, none⟩ = some signSymbol := rfl
  obtain ⟨r, hr, houtcome⟩ := Session.exists_resolution organize_signRecords Config.validate_default known_wordGrammar [] hs
  refine ⟨r, hr, fun hown => ?_⟩
  have hcandidates := candidates_of_outcome rfl hs houtcome
  rw [readingsAt_sign] at hcandidates
  generalize r.candidates = candidates at hown hcandidates
  obtain _ | ⟨_, hrest⟩ := hcandidates
  obtain _ | ⟨hsecond, _⟩ := hrest
  obtain _ | ⟨_, hrest⟩ := hown
  obtain _ | ⟨⟨own, hownScore, hownPsi⟩, _⟩ := hrest
  obtain ⟨first, hfirstScore, hfirstPsi⟩ := hsecond.first
  have hstandIn : standIn [assigningWord, literalWord] literalWord = assigningWord := by decide
  rw [readingsAt_sign, hstandIn] at hfirstScore
  have hless := breakdown_sign
  rw [hfirstScore, hownScore] at hless
  have hless := of_decide_eq_true hless
  rw [← hfirstPsi, ← hownPsi, Binary64.lt_iff] at hless
  omega

end Resolution

end TokenForest
