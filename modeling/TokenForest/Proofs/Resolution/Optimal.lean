import TokenForest.Proofs.Resolution.Trials
import TokenForest.Proofs.Session
import TokenForest.Resolution.Optimal

/-!
# Resolutions are optimal

A reading is eligible in the place of a symbol when it is registered for the class of the symbol under another tag, fits the lexeme,
reaches the threshold of the intent that it has there and the minimums, and its intent goes with that of the symbol. Where the registry
has one reading for each class and tag, a symbol is resolved when some reading is eligible, and then by the one that outranks all others.
-/

namespace TokenForest

/-- Readings of one class are told apart by their tags. -/
theorem Grammar.DistinctReadings.eq_of_typeTag {g : Grammar} (h : g.DistinctReadings) {r r' : Reading} (hr : r ∈ g.readings)
    (hr' : r' ∈ g.readings) (hclass : r.symbolClass = r'.symbolClass) (htag : r.typeTag = r'.typeTag) : r = r' :=
  List.inj_on_of_nodup_map h hr hr' (Prod.ext hclass htag)

namespace Resolution

variable {c : Context} {p : Position} {s : Symbol} {r r' : Reading} {b : Breakdown}

/-! ## Eligible readings -/

/-- The readings that are tried are those that fit. -/
theorem mem_readingsAt_iff : r ∈ c.readingsAt p s ↔ Fits c.grammar s r := by
  unfold Context.readingsAt alternatives arranged Grammar.readingsOf
  simp only [List.mem_append, List.mem_filter, Bool.and_eq_true, decide_eq_true_eq, Bool.not_eq_true']
  constructor
  · rintro (⟨⟨⟨hr, hclass⟩, htag, hfits⟩, _⟩ | ⟨⟨⟨hr, hclass⟩, htag, hfits⟩, _⟩) <;> exact ⟨hr, hclass, htag, hfits⟩
  · rintro ⟨hr, hclass, htag, hfits⟩
    rw [← and_or_left]
    exact ⟨⟨⟨hr, hclass⟩, htag, hfits⟩, Bool.eq_false_or_eq_true _⟩

/-- Where tags tell readings apart, every reading is weighed with its own confidence. -/
theorem standIn_eq_self (hdistinct : c.grammar.DistinctReadings) (hr : r ∈ c.readingsAt p s) : standIn (c.readingsAt p s) r = r := by
  obtain ⟨hmem, htag⟩ := standIn_mem hr
  have hfits := mem_readingsAt_iff.1 hr
  have hfits' := mem_readingsAt_iff.1 hmem
  exact hdistinct.eq_of_typeTag hfits'.registered hfits.registered (hfits'.symbolClass.trans hfits.symbolClass.symm) htag

/-- The eligible readings are those that pass when they are tried with their own confidences. -/
theorem eligible_iff (hscorer : c.scorer = .standard) (htheta : c.config.thetaMin ≠ .nan) : Eligible c p s r b ↔
    r ∈ c.readingsAt p s ∧ c.breakdown (reread s r) p = .ok b ∧ Passes c p s r b := by
  have hintent : c.intentAs p (reread s r) = c.intentAs p (s.retag r.typeTag r.hint) := Context.intentAs_nameless (nameless_reread s r)
  rw [mem_readingsAt_iff, Context.breakdown_nameless hscorer (nameless_reread s r)]
  constructor
  · rintro ⟨hfits, hb, hreached, hminimums, hcompatible⟩
    refine ⟨hfits, hb, (passes_iff (Context.settled_of_breakdown hb) htheta).2 ?_⟩
    rw [hintent]
    exact ⟨hreached, hminimums, hcompatible⟩
  · rintro ⟨hfits, hb, hpasses⟩
    have hpasses := (passes_iff (Context.settled_of_breakdown hb) htheta).1 hpasses
    rw [hintent] at hpasses
    exact ⟨hfits, hb, hpasses.1, hpasses.2.1, hpasses.2.2⟩

/-! ## Ranks of readings -/

theorem contains_attestedTags_iff :
    (attestedTags c.grid (c.grid.neighborhood p) s.lexeme).contains r.typeTag = true ↔ Attested c p s r := by
  unfold attestedTags Attested tagOf?
  rw [List.contains_iff_mem, List.mem_filterMap]
  simp only [Option.bind_eq_some_iff, Option.ite_none_right_eq_some, Option.some.injEq]

/-- Readings of a registry without repetitions stand in the order of the registry. -/
theorem pairwise_idxOf {readings : List Reading} (h : readings.Nodup) :
    readings.Pairwise (fun r r' => readings.idxOf r < readings.idxOf r') := by
  rw [List.pairwise_iff_getElem]
  intro i j hi hj hlt
  rwa [h.idxOf_getElem i hi, h.idxOf_getElem j hj]

/-- The readings are tried in their order. -/
theorem pairwise_readingsAt (hdistinct : c.grammar.DistinctReadings) : (c.readingsAt p s).Pairwise (Earlier c p s) := by
  have hordered := pairwise_idxOf hdistinct.of_map
  unfold Context.readingsAt alternatives arranged Grammar.readingsOf
  simp only
  rw [List.pairwise_append]
  refine ⟨?_, ?_, ?_⟩
  · refine (((hordered.filter _).filter _).filter _).imp_of_mem ?_
    intro r r' hr hr' hlt
    have hattested := contains_attestedTags_iff.1 (List.mem_filter.1 hr).2
    have hattested' := contains_attestedTags_iff.1 (List.mem_filter.1 hr').2
    exact Or.inr ⟨⟨fun _ => hattested', fun _ => hattested⟩, hlt⟩
  · refine (((hordered.filter _).filter _).filter _).imp_of_mem ?_
    intro r r' hr hr' hlt
    have hnot : ¬Attested c p s r := by
      rw [← contains_attestedTags_iff]
      simpa using (List.mem_filter.1 hr).2
    have hnot' : ¬Attested c p s r' := by
      rw [← contains_attestedTags_iff]
      simpa using (List.mem_filter.1 hr').2
    exact Or.inr ⟨⟨fun h => absurd h hnot, fun h => absurd h hnot'⟩, hlt⟩
  · intro r hr r' hr'
    have hnot' : ¬Attested c p s r' := by
      rw [← contains_attestedTags_iff]
      simpa using (List.mem_filter.1 hr').2
    exact Or.inl ⟨contains_attestedTags_iff.1 (List.mem_filter.1 hr).2, hnot'⟩

/-! ## Optimal resolutions -/

/-- A reading that another one before it is preferred to is outranked by it. -/
theorem outranks_of_preferred {b' : Breakdown} (hb : b.psi.Settled) (hb' : b'.psi.Settled)
    (h : preferred (alternative c p s r' b') (alternative c p s r b) = true) : Outranks c p s r b r' b' := by
  have h := (preferred_iff hb'.ne_nan hb.ne_nan).1 h
  unfold Outranks
  rw [Binary64.lt_iff, Binary64.le_iff]
  rcases h with hmore | ⟨hsame, hsupport⟩
  · exact Or.inl ⟨hb'.ne_nan, hb.ne_nan, hmore⟩
  · exact Or.inr ⟨⟨hb'.ne_nan, hb.ne_nan, Int.le_of_eq hsame⟩, Or.inl hsupport⟩

/-- A later reading that is not preferred is outranked. -/
theorem outranks_of_not_preferred {b' : Breakdown} (hb : b.psi.Settled) (hb' : b'.psi.Settled) (hearlier : Earlier c p s r r')
    (h : preferred (alternative c p s r b) (alternative c p s r' b') = false) : Outranks c p s r b r' b' := by
  have h : ¬(b.psi.rank < b'.psi.rank ∨ b.psi.rank = b'.psi.rank ∧ supportAt c p r < supportAt c p r') := by
    intro hpreferred
    have hpreferred := (preferred_iff (x := alternative c p s r b) (y := alternative c p s r' b') hb.ne_nan hb'.ne_nan).2 hpreferred
    rw [h] at hpreferred
    cases hpreferred
  unfold Outranks
  rw [Binary64.lt_iff, Binary64.le_iff]
  by_cases hmore : b'.psi.rank < b.psi.rank
  · exact Or.inl ⟨hb'.ne_nan, hb.ne_nan, hmore⟩
  · refine Or.inr ⟨⟨hb'.ne_nan, hb.ne_nan, by omega⟩, ?_⟩
    by_cases hsupport : supportAt c p r' < supportAt c p r
    · exact Or.inl hsupport
    · exact Or.inr ⟨by omega, hearlier⟩

section Weighed

variable {r : Resolution} {original : Breakdown} {t : Symbol}

theorem resolved_iff_of_weighed (hscorer : c.scorer = .standard) (htheta : c.config.thetaMin ≠ .nan)
    (h : Weighed c p s original (fun reading b => c.breakdown (reread s reading) p = .ok b) r) :
    r.status = .resolved ↔ ∃ reading b, Eligible c p s reading b := by
  rw [status_eq_resolved_iff]
  constructor
  · intro hchosen
    obtain ⟨⟨t, b⟩, hchosen⟩ := Option.ne_none_iff_exists'.1 hchosen
    obtain ⟨front, back, reading, hreadings, _, hb, hpasses, _⟩ := h.chosen (fun _ _ => Context.settled_of_breakdown) hchosen
    exact ⟨reading, b, (eligible_iff hscorer htheta).2 ⟨by simp [hreadings], hb, hpasses⟩⟩
  · rintro ⟨reading, b, heligible⟩ hnone
    obtain ⟨hreading, hb, hpasses⟩ := (eligible_iff hscorer htheta).1 heligible
    obtain ⟨b', hb', hrefused⟩ := h.refused hnone reading hreading
    cases hb.symm.trans hb'
    exact hrefused hpasses

/-- The reading that is chosen is eligible and outranks all others that are. -/
theorem chosen_of_weighed (hscorer : c.scorer = .standard) (htheta : c.config.thetaMin ≠ .nan) (hdistinct : c.grammar.DistinctReadings)
    (h : Weighed c p s original (fun reading b => c.breakdown (reread s reading) p = .ok b) r) (hchosen : r.chosen = some (t, b)) :
    ∃ reading, Eligible c p s reading b ∧ t = { s with id := t.id, typeTag := reading.typeTag, hint := reading.hint } ∧
      ∀ other b', Eligible c p s other b' → other = reading ∨ Outranks c p s reading b other b' := by
  obtain ⟨front, back, reading, hreadings, rfl, hb, hpasses, hfront, hback⟩ := h.chosen (fun _ _ => Context.settled_of_breakdown) hchosen
  have hsettled := Context.settled_of_breakdown hb
  refine ⟨reading, (eligible_iff hscorer htheta).2 ⟨by simp [hreadings], hb, hpasses⟩, rfl, ?_⟩
  intro other b' heligible
  obtain ⟨hother, hb', hpasses'⟩ := (eligible_iff hscorer htheta).1 heligible
  have hsettled' := Context.settled_of_breakdown hb'
  rw [hreadings] at hother
  rcases List.mem_append.1 hother with hother | hother
  · obtain ⟨e, he, rfl⟩ := List.mem_map.1 hother
    obtain ⟨hscore, hpreferred⟩ := hfront e he
    cases hscore.symm.trans hb'
    exact Or.inr (outranks_of_preferred hsettled hsettled' (hpreferred hpasses'))
  · rcases List.mem_cons.1 hother with rfl | hother
    · exact Or.inl rfl
    · have hearlier : Earlier c p s reading other := by
        have hpairwise := pairwise_readingsAt (p := p) (s := s) hdistinct
        rw [hreadings] at hpairwise
        exact List.rel_of_pairwise_cons (List.pairwise_append.1 hpairwise).2.1 hother
      obtain ⟨e, he, rfl⟩ := List.mem_map.1 hother
      obtain ⟨hscore, hpreferred⟩ := hback e he
      cases hscore.symm.trans hb'
      exact Or.inr (outranks_of_not_preferred hsettled hsettled' hearlier (hpreferred hpasses'))

/-- The best confidence is the greatest of the symbol and of the readings that fit it. -/
theorem best_of_weighed (hscorer : c.scorer = .standard) (horiginal : c.breakdown s p = .ok original)
    (h : Weighed c p s original (fun reading b => c.breakdown (reread s reading) p = .ok b) r) :
    Scored c p s r.bestConfidence ∧ ∀ psi, Scored c p s psi → psi ≤ r.bestConfidence := by
  obtain ⟨hattained, hown, hothers⟩ := h.best (Context.settled_of_breakdown horiginal) (fun _ _ => Context.settled_of_breakdown)
  constructor
  · rcases hattained with hbest | ⟨reading, hreading, b, hb, hbest⟩
    · rw [hbest]
      exact .original horiginal
    · rw [Context.breakdown_nameless hscorer (nameless_reread s reading)] at hb
      rw [hbest]
      exact .reading (mem_readingsAt_iff.1 hreading) hb
  · intro psi hpsi
    cases hpsi with
    | original hb =>
      cases horiginal.symm.trans hb
      exact hown
    | @reading reading b hfits hb =>
      obtain ⟨b', hb', hle⟩ := hothers reading (mem_readingsAt_iff.2 hfits)
      rw [Context.breakdown_nameless hscorer (nameless_reread s reading), hb] at hb'
      cases hb'
      exact hle

end Weighed

/-- Where tags tell readings apart, what a resolution finds is optimal. -/
theorem optimal_of_outcome (hscorer : c.scorer = .standard) (htheta : c.config.thetaMin ≠ .nan)
    (hdistinct : c.grammar.DistinctReadings) {r : Resolution} (hs : c.grid.symbolAt? p = some s) (h : outcome c p = .ok r) :
    Optimal c p s r := by
  obtain ⟨s', original, hs', horiginal, hr⟩ := outcome_eq_ok h
  cases hs.symm.trans hs'
  have hown : Weighed c p s original (fun reading b => c.breakdown (reread s reading) p = .ok b) r := by
    refine hr.mono fun reading hreading b hb => ?_
    rwa [standIn_eq_self hdistinct hreading] at hb
  exact ⟨resolved_iff_of_weighed hscorer htheta hown, fun _ _ => chosen_of_weighed hscorer htheta hdistinct hown,
    best_of_weighed hscorer horiginal hown⟩

open Session in
/-- Where tags tell readings apart, a resolution of any occupied position is optimal, whatever was asked before; it stops only at a
reading whose hint is not on the list. -/
theorem resolve_optimal {records : List TokenRecord} {staged : Bool} {source : Grammar} {grid : Grid}
    (hgrid : Grid.organize records staged source = .ok grid) {config : Config} (hvalid : config.validate = .ok ())
    {grammar : Grammar} (hdistinct : grammar.DistinctReadings) (steps : List Step) (hs : grid.symbolAt? p = some s) :
    (∃ r, resolutionAfter grid steps config grammar p = .ok r ∧ Optimal (.standard grid config grammar) p s r) ∨
      ∃ fault, resolutionAfter grid steps config grammar p = .error fault ∧ (Context.standard grid config grammar).Misread fault := by
  refine (resolutionAfter_answers hgrid hvalid steps grammar hs).imp_left ?_
  rintro ⟨r, hr, houtcome⟩
  exact ⟨r, hr, optimal_of_outcome (c := .standard grid config grammar) rfl (Config.thetaMin_ne_nan hvalid) hdistinct hs houtcome⟩

/-! ## A contested reading -/

/-- Two rows: a call with its parentheses, and below the called name another one between neighbours, taken for a literal. -/
def contestedRecords : List TokenRecord := [
  ⟨.terminal, "call", "bar", some 0, some 2, none, none, none, "", 1⟩,
  ⟨.delimiter, "delimiter", "(", some 0, some 3, none, none, none, "", 1⟩,
  ⟨.closure, "closure", ")", some 0, some 4, none, none, none, "", 1⟩,
  ⟨.terminal, "identifier", "y", some 1, some 0, none, none, none, "", 1⟩,
  ⟨.delimiter, "delimiter", ",", some 1, some 1, none, none, none, "", 1⟩,
  ⟨.terminal, "literal", "foo", some 1, some 2, none, none, none, "", 1⟩,
  ⟨.delimiter, "delimiter", "(", some 1, some 3, none, none, none, "", 1⟩,
  ⟨.closure, "closure", ")", some 1, some 4, none, none, none, "", 1⟩]

/-- The symbol of one of the records. -/
def contestedCell (number : Nat) (symbolClass : SymbolClass) (typeTag lexeme : String) (hint : Hint) (p : Position) :
    Position × Symbol :=
  (p, ⟨Grid.symbolName number p, symbolClass, lexeme, typeTag, hint, 1, none, none, none⟩)

/-- The grid of the two rows. -/
def contestedGrid : Grid where
  staged := false
  cells := [
    contestedCell 1 .terminal "call" "bar" .call ⟨0, 2, none⟩,
    contestedCell 2 .delimiter "delimiter" "(" .delimiter ⟨0, 3, none⟩,
    contestedCell 3 .closure "closure" ")" .closure ⟨0, 4, none⟩,
    contestedCell 4 .terminal "identifier" "y" .identifier ⟨1, 0, none⟩,
    contestedCell 5 .delimiter "delimiter" "," .delimiter ⟨1, 1, none⟩,
    contestedCell 6 .terminal "literal" "foo" .literal ⟨1, 2, none⟩,
    contestedCell 7 .delimiter "delimiter" "(" .delimiter ⟨1, 3, none⟩,
    contestedCell 8 .closure "closure" ")" .closure ⟨1, 4, none⟩]

/-- The symbol of the name that is taken for a literal. -/
def contestedSymbol : Symbol := (contestedCell 6 .terminal "literal" "foo" .literal ⟨1, 2, none⟩).2

theorem organize_contestedRecords : Grid.organize contestedRecords contestedGrid.staged .default = .ok contestedGrid :=
  Grid.organize_of_ordered (by decide +kernel) (by decide +kernel) (by decide +kernel)

theorem distinctReadings_default : Grammar.default.DistinctReadings := by decide +kernel

/-- The name may be a name after all. -/
def nameReading : Reading := ⟨.terminal, "identifier", .identifier, .identifier⟩

/-- It may be called, too. -/
def callReading : Reading := ⟨.terminal, "call", .call, .identifier⟩

/-- The confidence of the name under either reading. -/
def certain : Breakdown := ⟨⟨1, 1, 1, 0, by simp [Binary64.inUnit_zero, Binary64.inUnit_one]⟩, 1⟩

/-- The literal does not reach its threshold. Under both readings the name has one confidence, which reaches the threshold and the
minimums, and an intent that goes with that of the literal. -/
theorem judged_contested : (match (Context.standard contestedGrid .default .default).breakdown contestedSymbol ⟨1, 2, none⟩ with
      | .ok b => decide (b.psi < Config.default.threshold ((Context.standard contestedGrid .default .default).intentAt ⟨1, 2, none⟩))
      | .error _ => false) = true ∧
    ∀ r ∈ [nameReading, callReading],
      (Context.standard contestedGrid .default .default).breakdown (contestedSymbol.retag r.typeTag r.hint) ⟨1, 2, none⟩ = .ok certain ∧
      Config.default.threshold ((Context.standard contestedGrid .default .default).intentAs ⟨1, 2, none⟩
        (contestedSymbol.retag r.typeTag r.hint)) ≤ certain.psi ∧
      certain.components.reaches Config.default.componentMinimums = true ∧
      Intents.compatible .default ((Context.standard contestedGrid .default .default).intentAt ⟨1, 2, none⟩)
        ((Context.standard contestedGrid .default .default).intentAs ⟨1, 2, none⟩ (contestedSymbol.retag r.typeTag r.hint)) = true := by
  decide +kernel

/-- No other reading fits the name. -/
theorem fits_contested {r : Reading} : Fits .default contestedSymbol r ↔ r ∈ [nameReading, callReading] := by
  have hfits : ∀ r ∈ Grammar.default.readings, (r.symbolClass = contestedSymbol.symbolClass ∧ r.typeTag ≠ contestedSymbol.typeTag ∧
      r.shape.fits contestedSymbol.lexeme = true ↔ r ∈ [nameReading, callReading]) := by decide
  have hregistered : ∀ r ∈ [nameReading, callReading], r ∈ Grammar.default.readings := by decide
  constructor
  · rintro ⟨hr, hclass, htag, hlexeme⟩
    exact (hfits r hr).1 ⟨hclass, htag, hlexeme⟩
  · intro hr
    obtain ⟨hclass, htag, hlexeme⟩ := (hfits r (hregistered r hr)).2 hr
    exact ⟨hregistered r hr, hclass, htag, hlexeme⟩

/-- Both readings are eligible, with one confidence. -/
theorem eligible_contested {r : Reading} (hr : r ∈ [nameReading, callReading]) :
    Eligible (.standard contestedGrid .default .default) ⟨1, 2, none⟩ contestedSymbol r certain := by
  obtain ⟨hscored, hreached, hminimums, hcompatible⟩ := judged_contested.2 r hr
  exact ⟨fits_contested.2 hr, hscored, hreached, hminimums, hcompatible⟩

/-- The call above supports the one reading and not the other. -/
theorem supportAt_contested : supportAt (.standard contestedGrid .default .default) ⟨1, 2, none⟩ nameReading <
    supportAt (.standard contestedGrid .default .default) ⟨1, 2, none⟩ callReading := by decide

/-- So the name can only be resolved as a call. -/
theorem chosen_contested {r : Resolution} (h : Optimal (.standard contestedGrid .default .default) ⟨1, 2, none⟩ contestedSymbol r) :
    ∃ t, r.chosen = some (t, certain) ∧ t.typeTag = "call" := by
  have hcall := eligible_contested (r := callReading) (by simp)
  obtain ⟨⟨t, b⟩, hchosen⟩ := Option.ne_none_iff_exists'.1 (status_eq_resolved_iff.1 (h.resolved_iff.2 ⟨_, _, hcall⟩))
  obtain ⟨reading, heligible, ht, hranked⟩ := h.chosen t b hchosen
  have hreading := fits_contested.1 heligible.fits
  obtain rfl : certain = b := Except.ok.inj ((eligible_contested hreading).scored.symm.trans heligible.scored)
  refine ⟨t, hchosen, ?_⟩
  rw [ht]
  rcases List.mem_pair.1 hreading with rfl | rfl
  · -- the name would have to outrank the call
    rcases hranked callReading certain hcall with hsame | hmore | ⟨_, hsupport | ⟨hsupport, _⟩⟩
    · exact absurd hsame (by decide)
    · rw [Binary64.lt_iff] at hmore
      omega
    · exact absurd hsupport (Nat.lt_asymm supportAt_contested)
    · exact absurd hsupport (Nat.ne_of_gt supportAt_contested)
  · rfl

/-- The call above decides between two eligible readings of one confidence, and for the later one of the registry. -/
theorem resolve_optimal_contested : ∃ r t b, Session.resolutionAfter contestedGrid [] .default .default ⟨1, 2, none⟩ = .ok r ∧
    Optimal (.standard contestedGrid .default .default) ⟨1, 2, none⟩ contestedSymbol r ∧ r.chosen = some (t, b) ∧ t.typeTag = "call" ∧
    Grammar.default.readings.idxOf nameReading < Grammar.default.readings.idxOf callReading ∧
    supportAt (.standard contestedGrid .default .default) ⟨1, 2, none⟩ nameReading <
      supportAt (.standard contestedGrid .default .default) ⟨1, 2, none⟩ callReading ∧
    ∀ reading ∈ [nameReading, callReading], Eligible (.standard contestedGrid .default .default) ⟨1, 2, none⟩ contestedSymbol reading b := by
  have hs : contestedGrid.symbolAt? ⟨1, 2, none⟩ = some contestedSymbol := rfl
  rcases resolve_optimal organize_contestedRecords Config.validate_default distinctReadings_default [] hs with
    ⟨r, hr, hoptimal⟩ | ⟨fault, _, hmisread⟩
  · obtain ⟨t, hchosen, htag⟩ := chosen_contested hoptimal
    exact ⟨r, t, certain, hr, hoptimal, hchosen, htag, by decide, supportAt_contested, fun _ => eligible_contested⟩
  · exact absurd hmisread (Session.not_misread Session.known_default)

end Resolution

end TokenForest
