import TokenForest.Proofs.Config.Valid
import TokenForest.Proofs.Evaluation.Runs
import TokenForest.Proofs.Grid.Placement
import TokenForest.Proofs.Resolution.Readings
import TokenForest.Proofs.Survey.Coverage

/-!
# Surveys that come to an end

With a valid configuration, a score for every symbol and well-formed symbols, no step of a survey fails, whatever has been evaluated
before; only a reading whose hint is not on the list stops it. The confidence that a decision reports for a symbol is the stored
one, so it is the same whenever the decision is made.
-/

namespace TokenForest

namespace Context

/-- The configuration is valid, every symbol that passes its checks has a score at every position, the positions of the grid are in
order, and its symbols pass their checks. -/
structure Sound (c : Context) : Prop where
  valid : c.config.validate = .ok ()
  scores : ∀ s p, s.fault? = none → ∃ components, c.scorer.score s p c.grid c.config c.grammar = .ok components
  ordered : c.grid.positions.Pairwise (fun p q => p.le q = true)
  nodup : c.grid.positions.Nodup
  symbols : ∀ cell ∈ c.grid.cells, cell.2.fault? = none

/-- The table has the confidence of the symbol at a position. -/
def Knows (c : Context) (memo : Memo) (p : Position) (psi : Binary64) : Prop :=
  ∃ s w b, c.grid.symbolAt? p = some s ∧ c.weights = .ok w ∧ memo.get? (c.key w s p) = some b ∧ b.psi = psi

variable {c : Context} {E : Fault → Prop} {memo memo' : Memo} {p : Position} {psi psi' : Binary64}

theorem Knows.mono (h : c.Knows memo p psi) (hextends : memo.Extends memo') : c.Knows memo' p psi := by
  obtain ⟨s, w, b, hs, hw, hb, hpsi⟩ := h
  exact ⟨s, w, b, hs, hw, hextends _ _ hb, hpsi⟩

/-- A position has one confidence in a table. -/
theorem Knows.unique (h : c.Knows memo p psi) (h' : c.Knows memo p psi') : psi = psi' := by
  obtain ⟨s, w, b, hs, hw, hb, rfl⟩ := h
  obtain ⟨s', w', b', hs', hw', hb', rfl⟩ := h'
  obtain rfl := Option.some.inj (hs.symm.trans hs')
  obtain rfl := Except.ok.inj (hw.symm.trans hw')
  rw [Option.some.inj (hb.symm.trans hb')]

/-! ## Evaluating -/

theorem Sound.mapError_valid (h : c.Sound) : c.config.validate.mapError Fault.config = .ok () := by
  rw [h.valid]
  rfl

theorem Sound.exists_weights (h : c.Sound) : ∃ w, c.weights = .ok w ∧ w.validate = .ok () := by
  obtain ⟨w, hw⟩ := (Config.valid_of_validate h.valid).applied
  refine ⟨w, ?_, Weights.validate_of_effective hw⟩
  unfold weights
  rw [hw]
  rfl

/-- Every symbol that passes its checks has a confidence at every position. -/
theorem Sound.exists_breakdown (h : c.Sound) {w : Weights} (hw : w.validate = .ok ()) {s : Symbol} (hs : s.fault? = none)
    (p : Position) : ∃ b, c.breakdownWith w s p = .ok b := by
  obtain ⟨components, hcomponents⟩ := h.scores s p hs
  unfold breakdownWith Components.combine
  rw [hcomponents, hw]
  exact ⟨_, rfl⟩

/-- Evaluating a confidence answers with the one that is stored then. -/
theorem Sound.evaluate_answers (h : c.Sound) {s : Symbol} (hs : s.fault? = none) (p : Position) : (c.evaluate s p).Answers E
    (fun memo b => ∃ w, c.weights = .ok w ∧ memo.get? (c.key w s p) = some b) := by
  obtain ⟨w, hw, hvalid⟩ := h.exists_weights
  obtain ⟨computed, hcomputed⟩ := h.exists_breakdown hvalid hs p
  intro memo
  have hmemoize : ∃ b memo', memo.memoize (fun _ => false) (c.key w s p) (fun _ => c.breakdownWith w s p) = (.ok b, memo') := by
    cases hget : memo.get? (c.key w s p) with
    | some b => exact ⟨b, _, MemoTable.memoize_of_get? hget⟩
    | none => exact ⟨computed, _, MemoTable.memoize_of_fresh hget hcomputed⟩
  obtain ⟨b, memo', hmemoize⟩ := hmemoize
  obtain ⟨hextends, hstored⟩ := MemoTable.memoize_extends hmemoize
  refine Or.inl ⟨b, memo', ?_, hextends, fun later hlater => ⟨w, hw, hlater _ _ hstored⟩⟩
  unfold evaluate
  exact Evaluating.Runs.bind (Evaluating.Runs.lift hw memo) hmemoize

/-- Evaluating the symbol of a position makes its confidence known. -/
theorem Sound.evaluate_knows (h : c.Sound) {s : Symbol} (hs : c.grid.symbolAt? p = some s) :
    (c.evaluate s p).Answers E (fun memo b => c.Knows memo p b.psi) := by
  apply (h.evaluate_answers (h.symbols (p, s) (Grid.mem_cells_of_symbolAt? hs)) p).mono
  rintro memo b ⟨w, hw, hb⟩
  exact ⟨s, w, b, hs, hw, hb, rfl⟩

theorem symbolAt_eq_ok {s : Symbol} (hs : c.grid.symbolAt? p = some s) : c.symbolAt p = .ok s := Grid.cell_eq_ok_iff.2 hs

end Context

/-! ## Readings -/

namespace Resolution

variable {c : Context} {p : Position}

theorem tryReading_answers (h : c.Sound) (p : Position) {row : List Symbol} {index : Nat} (hindex : index < row.length)
    (original : Intent) {s : Symbol} {r : Reading} (hs : s.fault? = none) (hr : r ∈ c.grammar.readings) :
    (tryReading c (c.grid.neighborhood p) row index original s r).Answers c.Misread (fun _ _ => True) := by
  have hcheck := check_reread hs r
  rw [tryReading_eq p hindex]
  cases hhint : r.hint.isKnown with
  | true =>
    rw [hhint, if_pos rfl] at hcheck
    have hfault := (Symbol.check_eq_ok_iff.1 hcheck).1
    apply Evaluating.Answers.lift_bind (congrArg (Except.mapError Fault.symbol) hcheck)
    apply (h.evaluate_answers hfault _).bind
    intro b
    exact Evaluating.Answers.pure fun _ _ => trivial
  | false =>
    rw [hhint] at hcheck
    exact Evaluating.Answers.lift_error (congrArg (Except.mapError Fault.symbol) hcheck) ⟨r, hr, hhint, rfl⟩

theorem resolve_answers (h : c.Sound) {s : Symbol} (hs : c.grid.symbolAt? p = some s) :
    (resolve c p).Answers c.Misread (fun _ _ => True) := by
  have hfault : s.fault? = none := h.symbols (p, s) (Grid.mem_cells_of_symbolAt? hs)
  rw [resolve_eq]
  apply Evaluating.Answers.lift_bind (Context.symbolAt_eq_ok hs)
  apply (h.evaluate_answers hfault p).bind
  intro original
  apply Evaluating.Answers.bind (P := fun _ _ => True)
  · apply (Evaluating.Answers.mapM (Q := fun _ _ _ => True) _).mono
    · exact fun _ _ _ => trivial
    · intro r hr
      exact tryReading_answers h p (Context.indexAt_lt hs) _ hfault (mem_readings_of_mem_alternatives hr)
  · intro tried
    exact Evaluating.Answers.pure fun _ _ _ => trivial

end Resolution

/-! ## Rows -/

namespace Survey

open Evaluating

variable {c : Context} {E : Fault → Prop} {memo memo' memo'' : Memo} {p : Position}

/-- The confidence of a judged symbol is known, and the symbol is accepted with it or its position is flagged. -/
theorem judge_answers (h : c.Sound) {row : List Symbol} {index : Nat} (hindex : index < row.length) {s : Symbol}
    (hs : c.grid.symbolAt? p = some s) :
    (judge c row (index, p, s)).Answers E (fun memo j => ∃ psi, c.Knows memo p psi ∧
      (j.2 = .error p ∨ ∃ d, j.2 = .ok d ∧ d.position = p ∧ d.psi = psi ∧ d.status = .accepted)) := by
  rw [judge_eq_of_lt hindex]
  apply (h.evaluate_knows hs).bind
  intro b
  simp only
  split
  · apply Answers.pure
    intro memo hknown
    exact ⟨b.psi, hknown, Or.inr ⟨_, rfl, rfl, rfl, rfl⟩⟩
  · apply Answers.pure
    intro memo hknown
    exact ⟨b.psi, hknown, Or.inl rfl⟩

/-- The scan of a row has decisions and flagged positions whose confidences are known then, and it decides by accepting. -/
def Scanned (c : Context) (memo : Memo) (scan : RowSurvey) : Prop :=
  (∀ d ∈ scan.decisions, d.status = .accepted ∧ c.Knows memo d.position d.psi) ∧ ∀ p ∈ scan.flagged, ∃ psi, c.Knows memo p psi

theorem symbolAt?_of_mem_rowCells {lane : Lane} {row : Nat} {cell : Position × Symbol} (h : cell ∈ rowCells c.grid lane row) :
    c.grid.symbolAt? cell.1 = some cell.2 := by
  obtain ⟨q, _, hcell⟩ := List.mem_filterMap.1 h
  obtain ⟨s, hs, rfl⟩ := Option.map_eq_some_iff.1 hcell
  exact hs

theorem surveyRow_answers (h : c.Sound) (expired : Bool) (unit : Lane × Nat) :
    (surveyRow c expired unit).Answers E (fun memo scan => expired = false → Scanned c memo scan) := by
  rw [surveyRow_eq]
  cases expired with
  | true =>
    apply Answers.pure
    intro memo hfalse
    cases hfalse
  | false =>
    simp only [Bool.false_eq_true, if_false]
    apply Answers.bind
    · apply Answers.mapM (Q := fun entry memo j => ∃ psi, c.Knows memo entry.2.1 psi ∧
        (j.2 = .error entry.2.1 ∨ ∃ d, j.2 = .ok d ∧ d.position = entry.2.1 ∧ d.psi = psi ∧ d.status = .accepted))
      intro entry hentry
      obtain ⟨e, he, rfl⟩ := List.mem_map.1 hentry
      have hindex : e.2 < ((rowCells c.grid unit.1 unit.2).map (·.2)).length := by
        rw [List.length_map]
        exact List.snd_lt_of_mem_zipIdx he
      exact judge_answers h hindex (symbolAt?_of_mem_rowCells (List.fst_mem_of_mem_zipIdx he))
    · intro judged
      apply Answers.pure
      intro memo hjudged _
      constructor
      · intro d hd
        obtain ⟨j, hj, hjd⟩ := mem_accepted.1 hd
        obtain ⟨entry, _, psi, hknown, hor⟩ := exists_of_forall₂ hjudged hj
        rcases hor with herror | ⟨d', hok, hposition, hpsi, hstatus⟩
        · rw [herror] at hjd
          cases hjd
        · rw [hok] at hjd
          cases hjd
          rw [hposition, hpsi]
          exact ⟨hstatus, hknown⟩
      · intro p hp
        obtain ⟨j, hj, hjp⟩ := mem_flagged.1 hp
        obtain ⟨entry, _, psi, hknown, hor⟩ := exists_of_forall₂ hjudged hj
        rcases hor with herror | ⟨d', hok, _⟩
        · rw [herror] at hjp
          cases hjp
          exact ⟨psi, hknown⟩
        · rw [hok] at hjp
          cases hjp

/-- The decision on a flagged position is about it and reports its confidence; it is unprocessed just when the time was over. -/
theorem resolvePosition_answers (h : c.Sound) {expired : Bool} (hE : expired = false → E = c.Misread)
    (hp : p ∈ c.grid.positions) : (resolvePosition c expired p).Answers E
      (fun memo d => d.position = p ∧ c.Knows memo p d.psi ∧ (d.status = .notProcessed ↔ expired = true)) := by
  obtain ⟨s, hs⟩ := Grid.exists_symbolAt? hp
  unfold resolvePosition
  apply Answers.lift_bind (Context.symbolAt_eq_ok hs)
  apply (h.evaluate_knows hs).bind
  intro original
  cases expired with
  | true =>
    apply Answers.pure
    intro memo hknown
    exact ⟨rfl, hknown, by simp [Decision.skip]⟩
  | false =>
    obtain rfl := hE rfl
    apply (Resolution.resolve_answers h hs).bind
    intro r
    apply Answers.pure
    intro memo _ hknown
    have hstatus : r.status ≠ .notProcessed := by
      unfold Resolution.status
      cases r.chosen <;> simp
    rw [position_settle, psi_settle, status_settle]
    exact ⟨rfl, hknown, by simp [hstatus]⟩

/-- So do the decisions on the flagged positions of a row. -/
theorem settleRow_answers (h : c.Sound) {expired : Bool} (hE : expired = false → E = c.Misread) {ps : List Position}
    (hps : ∀ p ∈ ps, p ∈ c.grid.positions) : (settleRow c expired ps).Answers E
      (fun memo ds => ∀ d ∈ ds, d.position ∈ ps ∧ c.Knows memo d.position d.psi ∧
        (d.status = .notProcessed ↔ expired = true)) := by
  unfold settleRow
  apply (Answers.mapM fun p hp => resolvePosition_answers h hE (hps p hp)).mono
  intro memo ds hds d hd
  obtain ⟨p, hp, hposition, hknown, hstatus⟩ := exists_of_forall₂ hds hd
  rw [hposition]
  exact ⟨hp, hknown, hstatus⟩

/-! ## The whole survey -/

/-- A position of a row belongs to the unit of the row. -/
theorem unit_of_scan {expired : Bool} {unit : Lane × Nat} {scan : RowSurvey} (h : (surveyRow c expired unit).Produces scan)
    {p : Position} (hp : p ∈ scan.decisions.map (·.position) ∨ p ∈ scan.flagged) :
    p ∈ c.grid.positions ∧ (p.lane, p.row) = unit := by
  have hmem : p ∈ c.grid.rowPositions unit.1 unit.2 := by
    apply (surveyRow_perm h).1.mem_iff.1
    rwa [List.mem_append]
  obtain ⟨hposition, hlane, hrow⟩ := Grid.mem_rowPositions.1 hmem
  exact ⟨hposition, Prod.ext hlane hrow⟩

theorem mem_of_mem_pending {scans : List RowSurvey} {scan : RowSurvey} (h : scan ∈ pending scans) :
    scan ∈ scans ∧ scan.flagged ≠ [] := by
  have hwaiting : scan ∈ scans.filter (fun s => !s.flagged.isEmpty) := by
    rcases List.mem_append.1 h with h | h
    · exact List.mem_of_mem_filter h
    · exact List.mem_of_mem_filter h
  rw [List.mem_filter] at hwaiting
  exact ⟨hwaiting.1, by simpa using hwaiting.2⟩

theorem decidedTwice?_eq_none {decisions : List Decision} (h : (decisions.map (·.position)).Nodup) :
    decidedTwice? decisions = none := by
  induction decisions with
  | nil => rfl
  | cons d rest ih =>
    rw [List.map_cons, List.nodup_cons] at h
    unfold decidedTwice?
    rw [if_neg, ih h.2]
    intro htwice
    obtain ⟨e, he, hposition⟩ := List.any_eq_true.1 htwice
    rw [decide_eq_true_eq] at hposition
    exact h.1 (List.mem_map.2 ⟨e, he, hposition⟩)

theorem map_position_inOrder {decisions : List Decision} {ps : List Position} (hperm : (decisions.map (·.position)).Perm ps)
    (hordered : ps.Pairwise (fun p q => p.le q = true)) : (inOrder decisions).map (·.position) = ps := by
  have hsame : ((inOrder decisions).map (·.position)).Perm ps := ((List.mergeSort_perm _ _).map _).trans hperm
  refine hsame.eq_of_pairwise (fun p q _ _ hpq hqp => Position.le_antisymm hpq hqp) ?_ hordered
  unfold inOrder
  rw [List.pairwise_map]
  apply List.pairwise_mergeSort
  · exact fun a b d => Position.le_trans a.position b.position d.position
  · exact fun a b => Position.le_total a.position b.position

/-- A survey whose two phases come to their ends comes to an end itself, with what they decide, in source order. -/
theorem run_of_steps {deadline : Deadline} {scans : List RowSurvey} {resolved : List (List Decision)} (h : c.Sound)
    (hscan : Steps (fun e => surveyRow c (deadline e.1) e.2) (numbered 0 (units c.grid)) memo scans memo')
    (hsettle : Steps (fun e => settleRow c (deadline e.1) e.2.flagged) (numbered (units c.grid).length (pending scans)) memo'
      resolved memo'') :
    ∃ survey, (run c deadline).Runs memo survey memo'' ∧
      survey.decisions.Perm (scans.flatMap (·.decisions) ++ resolved.flatten) ∧
      survey.decisions.map (·.position) = c.grid.positions := by
  obtain ⟨hdecided, _⟩ := decided_perm hscan.produces hsettle.produces
  have honce := decidedTwice?_eq_none (hdecided.nodup_iff.2 h.nodup)
  refine ⟨⟨inOrder (scans.flatMap (·.decisions) ++ resolved.flatten), scans.map (·.profile),
    c.grid.lanes.flatMap (Balance.columnProfiles c.grid c.grammar), c.grid.lanes.map (Balance.ofLane c.grid c.grammar)⟩,
    ?_, List.mergeSort_perm _ _, map_position_inOrder hdecided h.ordered⟩
  rw [run_eq]
  apply (Runs.lift h.mapError_valid memo).bind
  apply hscan.runAll.bind
  apply hsettle.runAll.bind
  simp only
  rw [honce]
  exact Runs.pure memo'' _

/-- Both phases of a survey come to their ends, or it fails at a reading whose hint is not on the list. -/
theorem steps_or_misread (h : c.Sound) (deadline : Deadline) (memo : Memo) :
    (∃ scans memo' resolved memo'',
      Steps (fun e => surveyRow c (deadline e.1) e.2) (numbered 0 (units c.grid)) memo scans memo' ∧
      Steps (fun e => settleRow c (deadline e.1) e.2.flagged) (numbered (units c.grid).length (pending scans)) memo'
        resolved memo'') ∨ ∃ fault, (run c deadline).Fails memo fault ∧ c.Misread fault := by
  obtain ⟨scans, memo', hscan⟩ := Answers.exists_steps
    (fun (e : Nat × Lane × Nat) (_ : e ∈ numbered 0 (units c.grid)) => surveyRow_answers h (deadline e.1) e.2) memo
  have hflagged : ∀ e ∈ numbered (units c.grid).length (pending scans), ∀ p ∈ e.2.flagged, p ∈ c.grid.positions := by
    intro e he p hp
    have hpending := mem_of_mem_pending (snd_mem_of_mem_numbered he)
    obtain ⟨unit, _, hproduces⟩ := exists_of_forall₂ hscan.produces hpending.1
    exact (unit_of_scan hproduces (Or.inr hp)).1
  have hanswers : ∀ e ∈ numbered (units c.grid).length (pending scans), (settleRow c (deadline e.1) e.2.flagged).Answers
      c.Misread (fun _ _ => True) := by
    intro e he
    exact (settleRow_answers h (fun _ => rfl) (hflagged e he)).mono fun _ _ _ => trivial
  rcases Answers.steps_or_fails hanswers memo' with ⟨resolved, memo'', hsettle⟩ | ⟨fault, hmisread, _, hfails⟩
  · exact Or.inl ⟨scans, memo', resolved, memo'', hscan, hsettle⟩
  · refine Or.inr ⟨fault, ?_, hmisread⟩
    rw [run_eq]
    exact ((hfails.bind_first).bind_second hscan.runAll).bind_second (Runs.lift h.mapError_valid memo)

end Survey

end TokenForest
