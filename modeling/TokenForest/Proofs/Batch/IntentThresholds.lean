import TokenForest.Proofs.Assembly.Intents
import TokenForest.Proofs.Assembly.SourceOrder
import TokenForest.Proofs.Batch.Interleaving

/-!
# Thresholds in the delivered forest

The threshold that a symbol has to reach is that of its intent in the row that was recorded. The forest is made of the symbols that are
left of the row, and there a symbol may have another intent, whose threshold it does not reach. Where both rows give it one intent, a
terminal of the forest reaches the threshold of its own intent.

A survey reads the intent of a symbol off the row that was recorded, so what becomes of the other symbols of the row plays no part in it.
-/

namespace TokenForest

section

variable {c : Context} {p : Position} {s : Symbol} {d : Decision}

/-! ## Readings -/

namespace Resolution

/-- The reading that replaces a symbol reaches the threshold of the intent which it has in the place of the symbol. -/
theorem chosen_of_outcome {r : Resolution} {b : Breakdown} (htheta : c.config.thetaMin ≠ .nan) (h : outcome c p = .ok r)
    (hchosen : r.chosen = some (s, b)) : ∃ original reading, c.grid.symbolAt? p = some original ∧ s = reread original reading ∧
      c.config.threshold (c.intentAs p s) ≤ b.psi := by
  obtain ⟨original, _, horiginal, _, hr⟩ := outcome_eq_ok h
  obtain ⟨_, _, reading, _, rfl, hb, hpasses, _⟩ := hr.chosen (fun _ _ h => Context.settled_of_breakdown h) hchosen
  exact ⟨original, reading, horiginal, rfl, ((passes_iff (Context.settled_of_breakdown hb) htheta).1 hpasses).1⟩

end Resolution

/-! ## Decisions -/

namespace Survey

/-- What a symbol that a decision admits at a position is to its row: it reaches the threshold of its intent in the place of the
recorded symbol, has the lexeme of that symbol, and is that symbol when it was accepted. -/
structure AdmittedAs (c : Context) (p : Position) (d : Decision) (s : Symbol) : Prop where
  symbol : d.symbol = some s
  reached : c.config.threshold (c.intentAs p s) ≤ d.finalPsi
  recorded : ∃ original, c.grid.symbolAt? p = some original ∧ s.lexeme = original.lexeme ∧ (d.status = .accepted → s = original)

/-- An accepted symbol reaches the threshold of its intent. -/
theorem admittedAs_of_judged {b : Breakdown} (hs : c.grid.symbolAt? p = some s) (h : judged c p s b = .ok d) :
    AdmittedAs c p d s := by
  obtain ⟨hreached, _, rfl⟩ := judged_eq_ok_iff.1 h
  refine ⟨rfl, ?_, s, hs, rfl, fun _ => rfl⟩
  rw [Context.intentAs_self hs]
  exact hreached

/-- A symbol that settling a flagged position admits is the reading that was chosen. -/
theorem admittedAs_of_settle (htheta : c.config.thetaMin ≠ .nan) {b : Breakdown} {r : Resolution}
    (hr : Resolution.outcome c p = .ok r) (hadmitted : (settle c p s b r).status.isAdmitted = true) :
    ∃ t, AdmittedAs c p (settle c p s b r) t := by
  unfold settle at hadmitted ⊢
  cases hchosen : r.chosen with
  | none =>
    rw [hchosen] at hadmitted
    cases hadmitted
  | some chosen =>
    obtain ⟨recorded, reading, hrecorded, hreading, hreached⟩ := Resolution.chosen_of_outcome htheta hr hchosen
    refine ⟨chosen.1, rfl, hreached, recorded, hrecorded, ?_, nofun⟩
    rw [hreading]
    rfl

/-- Every symbol that a verdict admits reaches the threshold of its intent in the recorded row. -/
theorem admittedAs_of_verdict (htheta : c.config.thetaMin ≠ .nan) (h : verdict c p = .ok d)
    (hadmitted : d.status.isAdmitted = true) : ∃ s, AdmittedAs c p d s := by
  obtain ⟨s, b, hs, _, ⟨haccepted, _⟩ | ⟨_, r, hr, rfl⟩⟩ := verdict_eq_ok h
  · exact ⟨s, admittedAs_of_judged (Context.symbolAt?_of_symbolAt hs) haccepted⟩
  · exact admittedAs_of_settle htheta hr hadmitted

end Survey

end

/-! ## Verdicts and rows -/

namespace Assembly

variable {c : Context} {decisions : List Decision} {p : Position} {item : Admitted} {intent : Intent}

/-- The decisions of a survey: one on each position of the grid in order, the verdict there. -/
structure Verdicts (c : Context) (decisions : List Decision) : Prop where
  positions : decisions.map (·.position) = c.grid.positions
  nodup : c.grid.positions.Nodup
  verdicts : ∀ d ∈ decisions, Survey.verdict c d.position = .ok d
  theta : c.config.thetaMin ≠ .nan

/-- They are made one by one. -/
theorem Verdicts.mapM_verdict (h : Verdicts c decisions) : c.grid.positions.mapM (Survey.verdict c) = .ok decisions := by
  rw [← h.positions]
  exact mapM_of_forall₂ (List.forall₂_map_left_iff.2 (List.forall₂_same.2 h.verdicts))

/-- What is assembled at a position was admitted there. -/
theorem Verdicts.admittedAs (h : Verdicts c decisions) (hitem : admittedAt? decisions p = some item) :
    item.position = p ∧ ∃ d ∈ decisions, d.position = p ∧ d.finalPsi = item.psi ∧ Survey.AdmittedAs c p d item.symbol := by
  obtain ⟨d, hlatest, hsymbol, hpsi, hposition⟩ := latest_of_admittedAt? hitem
  have hd : d ∈ decisions := by
    obtain ⟨before, after, rfl, _⟩ := hlatest.last
    simp
  have hverdict := h.verdicts d hd
  rw [hlatest.position] at hverdict
  obtain ⟨s, hs⟩ := Survey.admittedAs_of_verdict h.theta hverdict hlatest.admitted
  obtain rfl : s = item.symbol := Option.some.inj (hs.symbol.symm.trans hsymbol)
  exact ⟨hposition, d, hd, hlatest.position, hpsi, hs⟩

/-- Where the recorded symbol is accepted, it is assembled. -/
theorem Verdicts.accepted (h : Verdicts c decisions) {d : Decision} (hd : d ∈ decisions) (haccepted : d.status = .accepted) :
    (admittedAt? decisions d.position).map (·.symbol) = c.grid.symbolAt? d.position := by
  have hadmitted : d.status.isAdmitted = true := by
    rw [haccepted]
    rfl
  have hnodup := h.nodup
  rw [← h.positions] at hnodup
  obtain ⟨s, hs⟩ := Survey.admittedAs_of_verdict h.theta (h.verdicts d hd) hadmitted
  obtain ⟨original, horiginal, _, hsame⟩ := hs.recorded
  rw [admittedAt?_eq (filter_eq_singleton hnodup hd), if_pos hadmitted, hs.symbol, horiginal, hsame haccepted]
  rfl

/-- The admitted symbols of a row that is assembled as it was recorded stand at its positions: the recorded ones, with what is admitted
at the position in its place. -/
theorem Undisturbed.row (hu : Undisturbed c decisions p) (h : Verdicts c decisions) (hitem : admittedAt? decisions p = some item) :
    (admittedRow decisions (c.grid.rowPositions p.lane p.row)).map (·.position) = c.grid.rowPositions p.lane p.row ∧
      (admittedRow decisions (c.grid.rowPositions p.lane p.row)).map (·.symbol) = (c.rowAt p).set (c.indexAt p) item.symbol := by
  obtain ⟨_, d, _, _, _, hadmitted⟩ := h.admittedAs hitem
  obtain ⟨original, horiginal, _, _⟩ := hadmitted.recorded
  have hp : p ∈ c.grid.rowPositions p.lane p.row := Context.mem_rowPositions_of_symbolAt? horiginal
  have hrow : (c.grid.rowPositions p.lane p.row).Nodup := (h.nodup.filter _).filter _
  have hother : ∀ q ∈ c.grid.rowPositions p.lane p.row, q ≠ p →
      (admittedAt? decisions q).map (·.symbol) = c.grid.symbolAt? q := by
    intro q hq hne
    obtain ⟨d, hd, rfl, haccepted⟩ := hu.others q hq hne
    exact h.accepted hd haccepted
  have hposition : ∀ q ∈ c.grid.rowPositions p.lane p.row, (admittedAt? decisions q).map (·.position) = some q := by
    intro q hq
    have hsome : ∃ x, admittedAt? decisions q = some x := by
      by_cases hqp : q = p
      · exact ⟨item, hqp ▸ hitem⟩
      · have hsymbol := Context.isSome_symbolAt? q hq
        rw [← hother q hq hqp, Option.isSome_map] at hsymbol
        exact Option.isSome_iff_exists.1 hsymbol
    obtain ⟨x, hx⟩ := hsome
    rw [hx, ← (h.admittedAs hx).1]
    rfl
  constructor
  · change ((c.grid.rowPositions p.lane p.row).filterMap (admittedAt? decisions)).map (·.position) = _
    rw [List.map_filterMap, List.filterMap_congr hposition, List.filterMap_some]
  · change ((c.grid.rowPositions p.lane p.row).filterMap (admittedAt? decisions)).map (·.symbol) = _
    rw [List.map_filterMap]
    exact filterMap_eq_set hrow hp Context.isSome_symbolAt? hother (by rw [hitem]; rfl)

/-- A row that is assembled as it was recorded starts with no closer of blocks. -/
theorem Undisturbed.not_closes (hu : Undisturbed c decisions p) (h : Verdicts c decisions) (hitem : admittedAt? decisions p = some item)
    {first : Admitted} {rest : List Admitted} (hrow : admittedRow decisions (c.grid.rowPositions p.lane p.row) = first :: rest) :
    c.grammar.closesBlock first.symbol.lexeme = false := by
  obtain ⟨_, d, _, _, _, hadmitted⟩ := h.admittedAs hitem
  obtain ⟨original, horiginal, hlexeme, _⟩ := hadmitted.recorded
  obtain ⟨_, hsymbols⟩ := hu.row h hitem
  -- what stands in the place of the recorded symbol has its lexeme
  have hlexemes : ((first :: rest).map (·.symbol)).map (·.lexeme) = (c.rowAt p).map (·.lexeme) := by
    obtain ⟨hi, hget⟩ := List.getElem?_eq_some_iff.1 (Context.getElem?_rowAt horiginal)
    rw [← hrow, hsymbols, List.map_set, hlexeme, ← hget, ← List.map_set, List.set_getElem_self]
  cases hrecorded : c.rowAt p with
  | nil =>
    rw [hrecorded] at hlexemes
    simp at hlexemes
  | cons s _ =>
    rw [hrecorded, List.map_cons, List.map_cons, List.map_cons, List.cons.injEq] at hlexemes
    rw [hlexemes.1]
    exact hu.start s (by rw [hrecorded]; rfl)

/-- A symbol whose row is assembled as it was recorded goes to the gate with its intent in the recorded row. -/
theorem Undisturbed.intent_eq (hu : Undisturbed c decisions p) (h : Verdicts c decisions) (hitem : admittedAt? decisions p = some item)
    (hoffered : OfferedAt c.grammar decisions c.grid p intent) : intent = c.intentAs p item.symbol := by
  obtain ⟨hpositions, hsymbols⟩ := hu.row h hitem
  cases hoffered with
  | inRow hleft hmem hp =>
    rename_i left x
    rcases hleft with rfl | ⟨first, hrow, hcloses⟩
    · obtain ⟨i, hi, hposition, hintent⟩ := exists_of_mem_classified hmem
      have hnodup : (c.grid.rowPositions p.lane p.row).Nodup := (h.nodup.filter _).filter _
      have hplace : (c.grid.rowPositions p.lane p.row)[i]? = some p := by
        rw [← hpositions, List.getElem?_map, List.getElem?_eq_getElem hi, Option.map_some, hposition, hp]
      obtain ⟨hi', hget⟩ := List.getElem?_eq_some_iff.1 hplace
      have hindex : c.indexAt p = i := by
        change (c.grid.rowPositions p.lane p.row).idxOf p = i
        simpa only [hget] using hnodup.idxOf_getElem i hi'
      rw [hintent, hsymbols, Context.intentAs, hindex]
    · rw [hu.not_closes h hitem hrow] at hcloses
      cases hcloses
  | closer hrow hcloses _ =>
    rw [hu.not_closes h hitem hrow] at hcloses
    cases hcloses

/-- A symbol with a hint that settles its intent goes to the gate with this intent, and has it in the recorded row. -/
theorem SettledByHint.intent_eq (hs : SettledByHint c.grammar item.symbol) (h : Verdicts c decisions)
    (hitem : admittedAt? decisions p = some item) (hoffered : OfferedAt c.grammar decisions c.grid p intent) :
    intent = c.intentAs p item.symbol := by
  obtain ⟨⟨settled, hsettled⟩, hnot⟩ := hs
  obtain ⟨_, d, _, _, _, hadmitted⟩ := h.admittedAs hitem
  obtain ⟨original, horiginal, _, _⟩ := hadmitted.recorded
  have hrecorded : c.intentAs p item.symbol = settled := by
    obtain ⟨hi, _⟩ := List.getElem?_eq_some_iff.1 (Context.getElem?_rowAt horiginal)
    exact Intents.classify_of_mem (by rw [List.getElem?_set_self hi]) hsettled
  -- the only symbol that the row has at the position is the one that is assembled there
  have honly : ∀ x ∈ admittedRow decisions (c.grid.rowPositions p.lane p.row), x.position = p → x = item := by
    intro x hx hposition
    obtain ⟨q, _, hq⟩ := List.mem_filterMap.1 hx
    have hat : admittedAt? decisions q = some x := hq
    rw [(h.admittedAs hat).1.symm.trans hposition, hitem] at hat
    exact (Option.some.inj hat).symm
  rw [hrecorded]
  cases hoffered with
  | inRow hleft hmem hp =>
    rename_i left x
    obtain ⟨i, hi, hposition, hintent⟩ := exists_of_mem_classified hmem
    have hsub : left[i] ∈ admittedRow decisions (c.grid.rowPositions p.lane p.row) := by
      rcases hleft with rfl | ⟨first, hrow, _⟩
      · exact List.getElem_mem hi
      · rw [hrow]
        exact List.mem_cons_of_mem _ (List.getElem_mem hi)
    have hthis := honly _ hsub (hposition.trans hp)
    rw [hintent]
    refine Intents.classify_of_mem (s := item.symbol) ?_ hsettled
    rw [List.getElem?_map, List.getElem?_eq_getElem hi, hthis]
    rfl
  | closer hrow hcloses hp =>
    rw [honly _ (by rw [hrow]; exact List.mem_cons_self) hp, hnot] at hcloses
    cases hcloses

/-! ## Terminals -/

/-- Every terminal of the forest of a survey meets its threshold. -/
theorem Verdicts.meetsThreshold (h : Verdicts c decisions) {r : SyntaxTree} (hr : r ∈ (ofDecisions decisions c.grid c.grammar).roots)
    {info : NodeInfo} (hinfo : info ∈ r.infos) (hk : info.kind = .terminal) :
    ∃ p ∈ c.grid.positions, ∃ s, MeetsThreshold c decisions info p s := by
  have hstated := ofDecisions_stated decisions c.grid c.grammar r hr info hinfo hk
  have hterminal := SyntaxTree.mem_terminals.2 ⟨⟨r, hr, hinfo⟩, hk⟩
  obtain ⟨item, hitem, intent, rfl⟩ := (ofDecisions_spec decisions c.grid c.grammar).2.exists_item hterminal
  obtain ⟨hp, hat⟩ := mem_admittedSymbols.1 hitem
  obtain ⟨_, d, _, _, hpsi, hadmitted⟩ := h.admittedAs hat
  have hreached : c.config.threshold (c.intentAs item.position item.symbol) ≤ item.psi := by
    rw [← hpsi]
    exact hadmitted.reached
  have hoffered : { terminalInfo item with intent }.id ∉ (ofDecisions decisions c.grid c.grammar).notes.coerced →
      OfferedAt c.grammar decisions c.grid item.position intent := by
    intro hnot
    rcases hstated with hcoerced | ⟨q, hq, hintent⟩
    · exact absurd hcoerced hnot
    · obtain rfl : item.position = q := Option.some.inj hq
      exact hintent
  refine ⟨item.position, hp, item.symbol, rfl, rfl, hreached, hoffered, fun hnot hsame => ?_⟩
  have hintent : intent = c.intentAs item.position item.symbol := by
    rcases hsame with hu | hs
    · exact hu.intent_eq h hat (hoffered hnot)
    · exact hs.intent_eq h hat (hoffered hnot)
  refine ⟨hintent, ?_⟩
  change c.config.threshold intent ≤ item.psi
  rw [hintent]
  exact hreached

end Assembly

/-! ## Batches -/

namespace Batch

open Assembly

variable {records : List TokenRecord} {config : Config} {grammar : Grammar} {batch : Batch}

/-- What the decisions of a batch without a deadline are. -/
theorem verdicts_of_run (h : run records config grammar .standard .never false = .ok batch) : ∃ grid,
    Grid.organize records config.staging.enabled grammar = .ok grid ∧
      Verdicts (.standard grid config grammar) batch.survey.decisions ∧
      batch.forest = Forest.ofTrees (ofDecisions batch.survey.decisions grid grammar).roots := by
  obtain ⟨grid, survey, hvalid, hgrid, hsurvey, h⟩ := exists_survey_of_run h
  cases h
  have hafter : Session.surveyAfter grid [] config grammar = .ok survey := hsurvey
  obtain ⟨hpositions, hverdicts⟩ := Session.positions_and_verdicts hgrid hvalid hafter
  have htheta : config.thetaMin ≠ .nan :=
    Binary64.ne_nan_of_isFinite (Binary64.isFinite_of_inUnit (Config.valid_of_validate hvalid).thetaMin)
  exact ⟨grid, hgrid, ⟨hpositions, Grid.nodup_positions hgrid, hverdicts, htheta⟩, rfl⟩

/-- Every terminal of a batch meets its threshold: it reaches that of its symbol's intent in the recorded row, and that of its own
intent where the gate did not change it and the row that is left gives the symbol the same one. -/
theorem run_meetsThresholds (h : run records config grammar .standard .never false = .ok batch) :
    ∃ grid, Grid.organize records config.staging.enabled grammar = .ok grid ∧
      ∀ i, batch.forest.Reachable i → (batch.forest.node i).info.kind = .terminal →
        ∃ p ∈ grid.positions, ∃ s,
          MeetsThreshold (.standard grid config grammar) batch.survey.decisions (batch.forest.node i).info p s := by
  obtain ⟨grid, hgrid, hverdicts, hforest⟩ := verdicts_of_run h
  obtain ⟨hf, htrees⟩ := Forest.adds_ofTrees (ofDecisions batch.survey.decisions grid grammar).roots
  rw [← hforest] at hf htrees
  refine ⟨grid, hgrid, fun i hi => ?_⟩
  refine hf.forall_info (P := fun info => info.kind = .terminal → ∃ p ∈ grid.positions, ∃ s,
    MeetsThreshold (.standard grid config grammar) batch.survey.decisions info p s) ?_ hi
  rw [htrees]
  intro r hr info hinfo hk
  exact hverdicts.meetsThreshold hr hinfo hk

/-- A declaration whose type is read with little confidence. -/
def declarationRecords : List TokenRecord := [
  ⟨.terminal, "keyword.type", "int", some 0, some 0, none, none, none, "", 0.1⟩,
  ⟨.terminal, "identifier", "x", some 0, some 1, none, none, none, "", 0.9⟩]

/-- The grid of the declaration. -/
def declarationGrid : Grid where
  staged := false
  cells := [
    (⟨0, 0, none⟩, ⟨Grid.symbolName 1 ⟨0, 0, none⟩, .terminal, "int", "keyword.type", .typeKeyword, 0.1, none, none, none⟩),
    (⟨0, 1, none⟩, ⟨Grid.symbolName 2 ⟨0, 1, none⟩, .terminal, "x", "identifier", .identifier, 0.9, none, none, none⟩)]

/-- Calls have to be nearly certain. -/
def strictCalls : Config := { Config.default with intentThresholds := [(.invoke, 0.99)] }

theorem validate_strictCalls : strictCalls.validate = .ok () :=
  Config.validate_with_threshold Config.validate_default rfl (Binary64.inUnit_ofScientific (by decide))
    (Binary64.ofScientific_le (by decide))

theorem organize_declarationRecords :
    Grid.organize declarationRecords strictCalls.staging.enabled .default = .ok declarationGrid := by
  have hstaged : declarationGrid.staged = strictCalls.staging.enabled := rfl
  rw [← hstaged]
  exact Grid.organize_of_ordered (by decide +kernel) (by decide +kernel) (by decide +kernel)

/-- A terminal of an assembled forest whose intent was not changed does not reach the threshold of its intent. -/
def Bypassed (config : Config) (assembly : Assembly) : Prop :=
  ∃ i ∈ (Forest.ofTrees assembly.roots).walk, ((Forest.ofTrees assembly.roots).node i).info.kind = .terminal ∧
    ((Forest.ofTrees assembly.roots).node i).info.id ∉ assembly.notes.coerced ∧
    ¬config.threshold ((Forest.ofTrees assembly.roots).node i).info.intent ≤ (Forest.ofTrees assembly.roots).confidence i

instance (config : Config) (assembly : Assembly) : Decidable (Bypassed config assembly) :=
  inferInstanceAs (Decidable (∃ i ∈ (Forest.ofTrees assembly.roots).walk, _))

/-- The verdicts on the declaration leave only its name, which is read as a call then. -/
theorem bypassed_declaration : (match declarationGrid.positions.mapM
      (Survey.verdict (.standard declarationGrid strictCalls .default)) with
    | .ok decisions => decide (Bypassed strictCalls (ofDecisions decisions declarationGrid .default))
    | .error _ => false) = true := by decide +kernel

theorem exists_run_declaration : ∃ batch, run declarationRecords strictCalls .default .standard .never false = .ok batch :=
  exists_run_of_organize organize_declarationRecords validate_strictCalls Session.known_default false

/-- The terminals of the declaration meet their thresholds. -/
theorem run_meetsThresholds_declaration : ∃ batch, run declarationRecords strictCalls .default .standard .never false = .ok batch ∧
    ∃ grid, Grid.organize declarationRecords strictCalls.staging.enabled .default = .ok grid ∧
      ∀ i, batch.forest.Reachable i → (batch.forest.node i).info.kind = .terminal →
        ∃ p ∈ grid.positions, ∃ s,
          MeetsThreshold (.standard grid strictCalls .default) batch.survey.decisions (batch.forest.node i).info p s := by
  obtain ⟨batch, h⟩ := exists_run_declaration
  exact ⟨batch, h, run_meetsThresholds h⟩

/-- A terminal may miss the threshold of its own intent: beside its type the name is declared, and so it is accepted; when the type is
left to a person, the name alone is a call, which is to be more certain. -/
theorem threshold_of_left_row : ∃ batch, run declarationRecords strictCalls .default .standard .never false = .ok batch ∧
    ¬∀ i, batch.forest.Reachable i → (batch.forest.node i).info.kind = .terminal →
      (batch.forest.node i).info.id ∉ (ofDecisions batch.survey.decisions declarationGrid .default).notes.coerced →
        strictCalls.threshold (batch.forest.node i).info.intent ≤ batch.forest.confidence i := by
  obtain ⟨batch, h⟩ := exists_run_declaration
  obtain ⟨grid, hgrid, hverdicts, hforest⟩ := verdicts_of_run h
  obtain rfl : grid = declarationGrid := Except.ok.inj (hgrid.symm.trans organize_declarationRecords)
  have hbypassed := bypassed_declaration
  have hdecisions : declarationGrid.positions.mapM (Survey.verdict (.standard declarationGrid strictCalls .default)) =
      .ok batch.survey.decisions := hverdicts.mapM_verdict
  rw [hdecisions] at hbypassed
  obtain ⟨i, hi, hkind, hid, hmiss⟩ := of_decide_eq_true hbypassed
  obtain ⟨hf, _⟩ := Forest.adds_ofTrees (ofDecisions batch.survey.decisions declarationGrid .default).roots
  rw [hf.mem_walk_iff] at hi
  rw [← hforest] at hi hkind hid hmiss
  exact ⟨batch, h, fun hall => hmiss (hall i hi hkind hid)⟩

end Batch

end TokenForest
