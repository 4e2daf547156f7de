import TokenForest.Proofs.Resolution.Amended
import TokenForest.Proofs.Resolution.Optimal
import TokenForest.Proofs.Survey.Locality

/-!
# Resolutions that are applied

A resolution scores another reading of a symbol in its recorded row. When the tag and the hint of the reading are written into the record
of the symbol and the stream is organized and surveyed again, the symbol is scored in the same row between the same neighbours and has
the same intent there, so it is accepted with the confidence that the resolution found.
-/

namespace TokenForest

/-- The record states its place under another tag, too. -/
theorem TokenRecord.samePlace_retag (r : TokenRecord) (typeTag : String) (hint : Hint) : r.SamePlace (r.retag typeTag hint) :=
  ⟨rfl, rfl, rfl⟩

/-- The name of a hint on the list names it. -/
theorem Hint.ofName_name {hint : Hint} (h : hint.isKnown = true) : Hint.ofName hint.name = hint := by
  cases hint with
  | other name => cases h
  | _ => rfl

/-- A record that passes its checks passes them under another tag that is not empty. -/
theorem TokenRecord.fault?_retag {r : TokenRecord} (h : r.fault? = none) {typeTag : String} (htag : typeTag ≠ "") (hint : Hint) :
    (r.retag typeTag hint).fault? = none := by
  obtain ⟨hclass, _, hlexeme, hscore⟩ := fault?_eq_none_iff.1 h
  exact fault?_eq_none_iff.2 ⟨hclass, htag, hlexeme, hscore⟩

namespace Grid

/-- The symbol of a record under another tag is the symbol of the record under that tag. -/
theorem symbolOf_retag {grammar : Grammar} {number : Nat} {p : Position} {r : TokenRecord} {s : Symbol}
    (h : symbolOf grammar number p r = .ok s) (typeTag : String) {hint : Hint} (hhint : hint.isKnown = true) :
    symbolOf grammar number p (r.retag typeTag hint) = .ok (s.retag typeTag hint) := by
  obtain ⟨hlabel, hpasses, _, _, rfl⟩ := symbolOf_eq_ok_iff.1 h
  obtain ⟨hid, hclass, _, hlexeme, hscore⟩ := Symbol.fault?_eq_none_iff.1 hpasses
  refine symbolOf_eq_ok_iff.2 ⟨hlabel, Symbol.fault?_eq_none_iff.2 ⟨hid, hclass, hhint, hlexeme, hscore⟩, hint, ?_, rfl⟩
  change grammar.hintOf? r.symbolClass typeTag hint.name = some hint
  unfold Grammar.hintOf?
  rw [Hint.ofName_name hhint]
  simp only [hhint, if_true]

/-- The symbol of a record has its lexeme. -/
theorem lexeme_of_symbolOf {grammar : Grammar} {number : Nat} {p : Position} {r : TokenRecord} {s : Symbol}
    (h : symbolOf grammar number p r = .ok s) : s.lexeme = r.lexeme := by
  obtain ⟨_, _, _, _, rfl⟩ := symbolOf_eq_ok_iff.1 h
  rfl

end Grid

namespace Survey

open Resolution

variable {c : Context} {grid : Grid} {config : Config} {grammar : Grammar} {p : Position} {s : Symbol} {d : Decision}

/-- Where tags tell readings apart, a resolved decision replaces the symbol by an eligible reading, with its confidence. -/
theorem eligible_of_resolved (hscorer : c.scorer = .standard) (htheta : c.config.thetaMin ≠ .nan)
    (hdistinct : c.grammar.DistinctReadings) (h : verdict c p = .ok d) (hresolved : d.status = .resolved) :
    ∃ t reading b, c.grid.symbolAt? p = some d.original ∧ d.symbol = some t ∧ t.typeTag = reading.typeTag ∧ t.hint = reading.hint ∧
      d.finalPsi = b.psi ∧ reading.hint.isKnown = true ∧ Eligible c p d.original reading b := by
  obtain ⟨s, original, hs, horiginal, ⟨_, haccepted⟩ | ⟨_, r, hr, rfl⟩⟩ := verdict_eq_ok h
  · rw [haccepted] at hresolved
    cases hresolved
  · have hs := Context.symbolAt?_of_symbolAt hs
    rw [status_settle, status_eq_resolved_iff, Option.ne_none_iff_exists'] at hresolved
    obtain ⟨⟨t, b⟩, hchosen⟩ := hresolved
    obtain ⟨reading, heligible, ht, _⟩ := (optimal_of_outcome hscorer htheta hdistinct hs hr).chosen t b hchosen
    have hknown : reading.hint.isKnown = true := isKnown_of_outcome hs hr (mem_readingsAt_iff.2 heligible.fits)
    have hsettle : settle c p s original r = Decision.resolve p s t original b (c.config.threshold r.originalIntent) r.bestConfidence := by
      unfold settle
      rw [hchosen]
    rw [hsettle]
    exact ⟨t, reading, b, hs, rfl, congrArg Symbol.typeTag ht, congrArg Symbol.hint ht, rfl, hknown, heligible⟩

/-- A symbol that is put into its cell as an eligible reading is accepted there. -/
theorem verdict_of_eligible (hnodup : grid.positions.Nodup) (hp : p ∈ grid.positions) {reading : Reading} {b : Breakdown}
    (h : Eligible (.standard grid config grammar) p s reading b) :
    verdict (.standard (grid.amend p (s.retag reading.typeTag reading.hint)) config grammar) p =
      .ok (Decision.accept p (s.retag reading.typeTag reading.hint) b
        (config.threshold ((Context.standard grid config grammar).intentAs p (s.retag reading.typeTag reading.hint)))) := by
  obtain ⟨_, hscored, hreached, hminimums, _⟩ := h
  generalize s.retag reading.typeTag reading.hint = t at hscored hreached ⊢
  have hintent : (Context.standard (grid.amend p t) config grammar).intentAt p = (Context.standard grid config grammar).intentAs p t :=
    Context.intentAt_amend hnodup hp
  rw [← hintent] at hreached ⊢
  exact verdict_eq_accept (c := .standard (grid.amend p t) config grammar) (Grid.symbolAt?_amend_self hp)
    ((Context.breakdown_amend hnodup).trans hscored) hreached hminimums

open Session in
/-- Surveys of a grid in which an eligible reading stands in the cell of the symbol accept it with its confidence. -/
theorem acceptsAt_of_eligible {records : List TokenRecord} {staged : Bool} {source : Grammar} {reading : Reading} {b : Breakdown}
    (hnodup : grid.positions.Nodup) (hp : p ∈ grid.positions)
    (hgrid : Grid.organize records staged source = .ok (grid.amend p (s.retag reading.typeTag reading.hint)))
    (hvalid : config.validate = .ok ()) (h : Eligible (.standard grid config grammar) p s reading b) {steps : List Step} {survey : Survey}
    (hsurvey : surveyAfter (grid.amend p (s.retag reading.typeTag reading.hint)) steps config grammar = .ok survey) :
    AcceptsAt survey p (s.retag reading.typeTag reading.hint) b.psi := by
  have hp' : p ∈ (grid.amend p (s.retag reading.typeTag reading.hint)).positions := by rwa [Grid.positions_amend]
  obtain ⟨d, hverdict, hfilter⟩ := exists_decision_at hgrid hvalid hsurvey hp'
  cases hverdict.symm.trans (verdict_of_eligible hnodup hp h)
  exact ⟨_, hfilter, rfl, rfl, rfl, rfl⟩

open Session in
/-- Where tags tell readings apart, a resolution survives being applied. The position of a resolved decision is that of a record; the
record may be given the tag and the hint of the decision's symbol, and then every survey of the stream accepts this symbol at the
position with the final confidence of the decision. -/
theorem resolution_survives {records : List TokenRecord} {staged : Bool} {source : Grammar}
    (hgrid : Grid.organize records staged source = .ok grid) (hvalid : config.validate = .ok ()) (hdistinct : grammar.DistinctReadings)
    {steps : List Step} {survey : Survey} (h : surveyAfter grid steps config grammar = .ok survey) (hd : d ∈ survey.decisions)
    (hresolved : d.status = .resolved) : ∃ t, d.symbol = some t ∧
      (∃ k record, records[k]? = some record ∧ Grid.PlacedAt staged source records k d.position) ∧
      ∀ k record, records[k]? = some record → Grid.PlacedAt staged source records k d.position →
        (record.fault? = none → t.typeTag ≠ "" → (record.retag t.typeTag t.hint).fault? = none) ∧
        ∃ grid', Grid.organize (records.set k (record.retag t.typeTag t.hint)) staged source = .ok grid' ∧
          ∀ steps', Concludes (.standard grid' config grammar) (surveyAfter grid' steps' config grammar) ∧
            ∀ survey', surveyAfter grid' steps' config grammar = .ok survey' →
              ∃ s, s.typeTag = t.typeTag ∧ s.hint = t.hint ∧ s.lexeme = record.lexeme ∧ AcceptsAt survey' d.position s d.finalPsi := by
  obtain ⟨_, hverdicts⟩ := positions_and_verdicts hgrid hvalid h
  obtain ⟨t, reading, b, hs, ht, htag, hhint, hpsi, hknown, heligible⟩ :=
    eligible_of_resolved rfl (Config.thetaMin_ne_nan hvalid) hdistinct (hverdicts d hd) hresolved
  have hp : d.position ∈ grid.positions := List.mem_map_of_mem (f := Prod.fst) (Grid.mem_cells_of_symbolAt? hs)
  refine ⟨t, ht, Grid.exists_placedAt hgrid hp, fun k record hk hplaced => ?_⟩
  rw [htag, hhint, hpsi]
  obtain ⟨s, hs', hsymbol⟩ := Grid.symbolAt?_of_placedAt hgrid hk hplaced
  cases hs.symm.trans hs'
  have hlexeme : d.original.lexeme = record.lexeme := Grid.lexeme_of_symbolOf hsymbol
  have hgrid' := Grid.organize_set hgrid hk hplaced (record.samePlace_retag _ _) (Grid.symbolOf_retag hsymbol reading.typeTag hknown)
  refine ⟨fun hpasses htag => TokenRecord.fault?_retag hpasses htag _, _, hgrid', fun steps' => ?_⟩
  refine ⟨concludes_surveyAfter hgrid' hvalid steps' grammar, fun survey' hsurvey' => ?_⟩
  refine ⟨d.original.retag reading.typeTag reading.hint, rfl, rfl, hlexeme, ?_⟩
  exact acceptsAt_of_eligible (Grid.nodup_positions hgrid) hp hgrid' hvalid heligible hsurvey'

/-- The name below the call is resolved as a call. -/
theorem resolved_contested (h : verdict (.standard contestedGrid .default .default) ⟨1, 2, none⟩ = .ok d) :
    d.status = .resolved ∧ ∃ t, d.symbol = some t ∧ t.typeTag = "call" := by
  have hsymbol : contestedGrid.symbolAt? ⟨1, 2, none⟩ = some contestedSymbol := rfl
  obtain ⟨s, original, hs, horiginal, ⟨haccepted, _⟩ | ⟨_, r, hr, rfl⟩⟩ := verdict_eq_ok h
  · -- the literal does not reach its threshold
    cases hsymbol.symm.trans (Context.symbolAt?_of_symbolAt hs)
    have hless := judged_contested.1
    rw [horiginal] at hless
    have hless := of_decide_eq_true hless
    obtain ⟨hreached, _⟩ := judged_eq_ok_iff.1 haccepted
    rw [Binary64.lt_iff] at hless
    rw [Binary64.le_iff] at hreached
    exact absurd hreached.2.2 (Int.not_le.2 hless.2.2)
  · have htheta : (Context.standard contestedGrid .default .default).config.thetaMin ≠ .nan :=
      Config.thetaMin_ne_nan (c := .default) Config.validate_default
    have hoptimal := optimal_of_outcome (c := .standard contestedGrid .default .default) rfl htheta distinctReadings_default hsymbol hr
    obtain ⟨t, hchosen, htag⟩ := chosen_contested hoptimal
    refine ⟨?_, t, ?_, htag⟩
    · rw [status_settle, status_eq_resolved_iff, hchosen]
      exact Option.some_ne_none _
    · unfold settle
      rw [hchosen]
      rfl

open Session in
/-- When the name below the call is recorded as the call that it was resolved to, it is accepted with the confidence of the resolution. -/
theorem resolution_survives_contested : ∃ survey d t k record grid' survey' s,
    surveyAfter contestedGrid [] .default .default = .ok survey ∧ d ∈ survey.decisions ∧ d.position = ⟨1, 2, none⟩ ∧
    d.status = .resolved ∧ d.symbol = some t ∧ t.typeTag = "call" ∧ contestedRecords[k]? = some record ∧
    Grid.organize (contestedRecords.set k (record.retag t.typeTag t.hint)) contestedGrid.staged .default = .ok grid' ∧
    surveyAfter grid' [] .default .default = .ok survey' ∧ s.typeTag = t.typeTag ∧ s.lexeme = record.lexeme ∧
    AcceptsAt survey' ⟨1, 2, none⟩ s d.finalPsi := by
  have hvalid := Config.validate_default
  obtain ⟨survey, h⟩ := (concludes_surveyAfter organize_contestedRecords hvalid [] .default).exists_ok known_default
  have hp : (⟨1, 2, none⟩ : Position) ∈ contestedGrid.positions := by decide
  obtain ⟨d, hverdict, hfilter⟩ := exists_decision_at organize_contestedRecords hvalid h hp
  obtain ⟨hd, hposition⟩ := List.mem_filter.1 (hfilter ▸ List.mem_singleton_self d)
  have hposition := of_decide_eq_true hposition
  obtain ⟨hresolved, called, hcalled, htag⟩ := resolved_contested hverdict
  obtain ⟨t, ht, ⟨k, record, hk, hplaced⟩, happlied⟩ :=
    resolution_survives organize_contestedRecords hvalid distinctReadings_default h hd hresolved
  obtain ⟨_, grid', hgrid', hagain⟩ := happlied k record hk hplaced
  obtain ⟨hconcludes, hall⟩ := hagain []
  obtain ⟨survey', hsurvey'⟩ := hconcludes.exists_ok known_default
  obtain ⟨s, hstag, _, hlexeme, haccepts⟩ := hall survey' hsurvey'
  rw [ht] at hcalled
  obtain rfl := Option.some.inj hcalled
  rw [hposition] at haccepts
  exact ⟨survey, d, t, k, record, grid', survey', s, h, hd, hposition, hresolved, ht, htag, hk, hgrid', hsurvey', hstag, hlexeme,
    haccepts⟩

end Survey

end TokenForest
