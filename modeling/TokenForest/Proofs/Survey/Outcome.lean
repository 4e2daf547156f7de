import TokenForest.Proofs.Resolution.Outcome
import TokenForest.Proofs.Survey.Answers

/-!
# The outcome of a survey

What a survey without a deadline finds, said without the table of confidences and position by position: each symbol is appraised with
its confidence in its row, and a flagged one is settled by its resolution. A survey that starts with a truthful table has this outcome
and leaves a truthful table.
-/

namespace TokenForest

namespace Survey

open Evaluating

variable {c : Context} {p : Position}

/-! ## Outcomes -/

/-- The symbol at a position is accepted with its confidence, or the position is flagged. -/
def judged (c : Context) (p : Position) (s : Symbol) (b : Breakdown) : Except Position Decision :=
  let threshold := c.config.threshold (c.intentAt p)
  if threshold ≤ b.psi ∧ b.components.reaches c.config.componentMinimums then .ok (Decision.accept p s b threshold) else .error p

/-- The confidence of the symbol at a position, with its decision when it is accepted. -/
def appraise (c : Context) (p : Position) : Except Fault (Binary64 × Except Position Decision) := do
  let s ← c.symbolAt p
  let b ← c.breakdown s p
  return (b.psi, judged c p s b)

/-- The scan of a row, with its mean by a function. -/
def scanBy (average : List Binary64 → Binary64) (c : Context) (unit : Lane × Nat) : Except Fault RowSurvey := do
  let judged ← (c.grid.rowPositions unit.1 unit.2).mapM (appraise c)
  return scannedBy average c unit.1 unit.2 judged

/-- The scan of a row. -/
def scan (c : Context) (unit : Lane × Nat) : Except Fault RowSurvey := scanBy Binary64.mean c unit

/-- The decision on a flagged position. -/
def settlement (c : Context) (p : Position) : Except Fault Decision := do
  let s ← c.symbolAt p
  let original ← c.breakdown s p
  let r ← Resolution.outcome c p
  return settle c p s original r

/-- What scanning and resolving have decided. -/
def decided (scans : List RowSurvey) (resolved : List (List Decision)) : List Decision :=
  scans.flatMap (·.decisions) ++ resolved.flatten

/-- The survey that scans and resolutions make. -/
def ofPhases (c : Context) (scans : List RowSurvey) (resolved : List (List Decision)) : Survey where
  decisions := inOrder (decided scans resolved)
  rowProfiles := scans.map (·.profile)
  columnProfiles := c.grid.lanes.flatMap (Balance.columnProfiles c.grid c.grammar)
  laneBalances := c.grid.lanes.map (Balance.ofLane c.grid c.grammar)

/-- What a survey finds, with the means of rows by a function. -/
def outcomeBy (average : List Binary64 → Binary64) (c : Context) : Except Fault Survey := do
  c.config.validate.mapError .config
  let scans ← (units c.grid).mapM (scanBy average c)
  let resolved ← (pending scans).mapM (fun s => s.flagged.mapM (settlement c))
  match decidedTwice? (decided scans resolved) with
  | some p => .error (.decidedTwice p)
  | none => return ofPhases c scans resolved

/-- What a survey finds. -/
def outcome (c : Context) : Except Fault Survey := outcomeBy Binary64.mean c

/-! ## Computing them -/

/-- The entries of a row: each of its positions with its index and its symbol. -/
theorem forall₂_rowCells (hnodup : c.grid.positions.Nodup) (unit : Lane × Nat) :
    List.Forall₂ (fun entry p => p ∈ c.grid.rowPositions unit.1 unit.2 ∧ entry.2.1 = p ∧
        entry.1 = (c.grid.rowPositions unit.1 unit.2).idxOf p ∧ c.grid.symbolAt? p = some entry.2.2)
      ((rowCells c.grid unit.1 unit.2).zipIdx.map (fun e => (e.2, e.1))) (c.grid.rowPositions unit.1 unit.2) := by
  have hcells := map_rowCells c.grid unit.1 unit.2
  have hrow : (c.grid.rowPositions unit.1 unit.2).Nodup := (hnodup.filter _).filter _
  have hlength := congrArg List.length hcells
  rw [List.length_map] at hlength
  rw [List.forall₂_iff_get]
  refine ⟨by simpa using hlength, ?_⟩
  intro i hi hi'
  have hi'' : i < (rowCells c.grid unit.1 unit.2).length := hlength ▸ hi'
  have hposition : ((rowCells c.grid unit.1 unit.2)[i]).1 = (c.grid.rowPositions unit.1 unit.2)[i] := by
    simp [← hcells]
  have hsymbol : c.grid.symbolAt? ((rowCells c.grid unit.1 unit.2)[i]).1 = some ((rowCells c.grid unit.1 unit.2)[i]).2 := by
    obtain ⟨q, _, hcell⟩ := List.mem_filterMap.1 (List.getElem_mem hi'')
    obtain ⟨s, hs, heq⟩ := Option.map_eq_some_iff.1 hcell
    rw [← heq]
    exact hs
  rw [hposition] at hsymbol
  refine ⟨by simp, by simpa using hposition, ?_, by simpa using hsymbol⟩
  simp [hrow.idxOf_getElem i hi']

/-- Judging a symbol at its index of its row computes the appraisal of its position. -/
theorem judge_computes (hscorer : c.scorer = .standard) {s : Symbol} (hs : c.grid.symbolAt? p = some s) :
    (judge c (c.rowAt p) (c.indexAt p, p, s)).Computes (Context.Truthful c.grid) (appraise c p) := by
  rw [judge_eq_of_lt (Context.indexAt_lt hs)]
  unfold appraise
  rw [Context.symbolAt_eq_ok hs]
  refine (Context.evaluate_computes hscorer hs).bind fun b _ => ?_
  unfold judged Context.intentAt
  simp only
  split
  · exact Computes.pure _
  · exact Computes.pure _

/-- Scanning a row in time computes its scan. -/
theorem surveyRowBy_computes (average : List Binary64 → Binary64) (hscorer : c.scorer = .standard) (hnodup : c.grid.positions.Nodup)
    (unit : Lane × Nat) : (surveyRowBy average c false unit).Computes (Context.Truthful c.grid) (scanBy average c unit) := by
  rw [surveyRowBy_eq]
  unfold scanBy
  simp only [Bool.false_eq_true, if_false]
  refine Computes.bind (Computes.mapM ?_) fun judged _ => Computes.pure _
  rw [map_snd_rowCells]
  refine (forall₂_rowCells hnodup unit).imp ?_
  rintro ⟨index, p, s⟩ p' ⟨hmem, rfl, hindex, hs⟩
  obtain ⟨_, hlane, hrow⟩ := Grid.mem_rowPositions.1 hmem
  simp only at hindex
  rw [hindex, ← hlane, ← hrow]
  exact judge_computes hscorer hs

theorem surveyRow_computes (hscorer : c.scorer = .standard) (hnodup : c.grid.positions.Nodup) (unit : Lane × Nat) :
    (surveyRow c false unit).Computes (Context.Truthful c.grid) (scan c unit) :=
  surveyRowBy_computes Binary64.mean hscorer hnodup unit

/-- Resolving a flagged position in time computes its settlement. -/
theorem resolvePosition_computes (hscorer : c.scorer = .standard) (p : Position) :
    (resolvePosition c false p).Computes (Context.Truthful c.grid) (settlement c p) := by
  unfold resolvePosition settlement
  refine (Computes.lift _).bind fun s hs => ?_
  refine (Context.evaluate_computes hscorer (Context.symbolAt?_of_symbolAt hs)).bind fun original _ => ?_
  simp only [Bool.false_eq_true, if_false]
  exact (Resolution.resolve_computes hscorer p).bind fun r _ => Computes.pure _

theorem settleRow_computes (hscorer : c.scorer = .standard) (ps : List Position) :
    (settleRow c false ps).Computes (Context.Truthful c.grid) (ps.mapM (settlement c)) :=
  Computes.mapM (List.forall₂_same.2 fun p _ => resolvePosition_computes hscorer p)

/-- A survey without a deadline computes its outcome. -/
theorem runBy_computes (average : List Binary64 → Binary64) (hscorer : c.scorer = .standard) (hnodup : c.grid.positions.Nodup) :
    (runBy average c .never).Computes (Context.Truthful c.grid) (outcomeBy average c) := by
  have hunits : ∀ {α β : Type} (f : Bool → α → Evaluating β) (start : Nat) (units : List α),
      (numbered start units).map (fun e => f (Deadline.never e.1) e.2) = units.map (f false) := by
    intro α β f start units
    rw [← map_snd_numbered start units, List.map_map, map_snd_numbered]
    rfl
  rw [runBy_eq]
  unfold outcomeBy
  simp only
  rw [hunits (surveyRowBy average c)]
  refine (Computes.lift _).bind fun _ _ => ?_
  refine (Computes.runAll fun unit _ => surveyRowBy_computes average hscorer hnodup unit).bind fun scans _ => ?_
  rw [hunits (fun expired (s : RowSurvey) => settleRow c expired s.flagged)]
  refine (Computes.runAll fun s _ => settleRow_computes hscorer s.flagged).bind fun resolved _ => ?_
  unfold decided
  cases decidedTwice? (scans.flatMap (·.decisions) ++ resolved.flatten) with
  | some p => exact Computes.lift _
  | none => exact Computes.pure _

theorem run_computes (hscorer : c.scorer = .standard) (hnodup : c.grid.positions.Nodup) :
    (run c .never).Computes (Context.Truthful c.grid) (outcome c) :=
  runBy_computes Binary64.mean hscorer hnodup

/-! ## Phases -/

/-- The scans of some rows, and the decisions on the flagged positions of the scans in an arrangement. -/
structure Phases (c : Context) (rows : List (Lane × Nat)) (arrange : List RowSurvey → List RowSurvey) (scans : List RowSurvey)
    (resolved : List (List Decision)) : Prop where
  scanned : rows.mapM (scan c) = .ok scans
  settled : (arrange scans).mapM (fun s => s.flagged.mapM (settlement c)) = .ok resolved

/-- A survey that has an outcome comes to it by its two phases. -/
theorem phases_of_outcome {survey : Survey} (h : outcome c = .ok survey) : ∃ scans resolved,
    Phases c (units c.grid) pending scans resolved ∧ survey = ofPhases c scans resolved := by
  obtain ⟨_, _, h⟩ := ok_of_bind h
  obtain ⟨scans, hscans, h⟩ := ok_of_bind h
  obtain ⟨resolved, hresolved, h⟩ := ok_of_bind h
  split at h
  · cases h
  · cases h
    exact ⟨scans, resolved, ⟨hscans, hresolved⟩, rfl⟩

/-- What the two phases of a survey decide is one decision on every position. -/
theorem Phases.decided_perm {scans : List RowSurvey} {resolved : List (List Decision)} (hscorer : c.scorer = .standard)
    (hnodup : c.grid.positions.Nodup) (h : Phases c (units c.grid) pending scans resolved) :
    ((decided scans resolved).map (·.position)).Perm c.grid.positions := by
  have hempty : Context.Truthful c.grid .empty := Context.truthful_of_entries_nil rfl
  have hscans : List.Forall₂ (fun e s => (surveyRow c (Deadline.never e.1) e.2).Produces s) (numbered 0 (units c.grid)) scans := by
    have hall := forall₂_of_mapM h.scanned
    rw [← map_snd_numbered 0 (units c.grid)] at hall
    refine (List.forall₂_map_left_iff.1 hall).imp fun e s hs => ?_
    exact produces_of_run ((surveyRow_computes hscorer hnodup e.2 .empty hempty).1.trans hs)
  have hresolved : List.Forall₂ (fun e ds => (settleRow c (Deadline.never e.1) e.2.flagged).Produces ds)
      (numbered (units c.grid).length (pending scans)) resolved := by
    have hall := forall₂_of_mapM h.settled
    rw [← map_snd_numbered (units c.grid).length (pending scans)] at hall
    refine (List.forall₂_map_left_iff.1 hall).imp fun e ds hds => ?_
    exact produces_of_run ((settleRow_computes hscorer e.2.flagged .empty hempty).1.trans hds)
  exact (Survey.decided_perm hscans hresolved).1

/-- The two phases of a survey with a valid configuration make its outcome. -/
theorem Phases.outcome_eq {scans : List RowSurvey} {resolved : List (List Decision)} (hscorer : c.scorer = .standard)
    (hnodup : c.grid.positions.Nodup) (hvalid : c.config.validate = .ok ())
    (h : Phases c (units c.grid) pending scans resolved) : outcome c = .ok (ofPhases c scans resolved) := by
  have honce : decidedTwice? (decided scans resolved) = none :=
    decidedTwice?_eq_none ((h.decided_perm hscorer hnodup).nodup_iff.2 hnodup)
  have hscanned : (units c.grid).mapM (scanBy Binary64.mean c) = .ok scans := h.scanned
  unfold outcome outcomeBy
  rw [hvalid, hscanned, mapError_ok, ok_bind, ok_bind, h.settled, ok_bind, honce]
  rfl

/-! ## Verdicts -/

/-- The decision that a survey makes on a position. -/
def verdict (c : Context) (p : Position) : Except Fault Decision := do
  let (_, j) ← appraise c p
  match j with
  | .ok d => return d
  | .error _ => settlement c p

theorem judged_cases (c : Context) (p : Position) (s : Symbol) (b : Breakdown) :
    (∃ d, judged c p s b = .ok d ∧ d.position = p ∧ d.status = .accepted) ∨ judged c p s b = .error p := by
  unfold judged
  simp only
  split
  · exact Or.inl ⟨_, rfl, rfl, rfl⟩
  · exact Or.inr rfl

theorem judged_eq_ok_iff {s : Symbol} {b : Breakdown} {d : Decision} : judged c p s b = .ok d ↔
    c.config.threshold (c.intentAt p) ≤ b.psi ∧ b.components.reaches c.config.componentMinimums = true ∧
      d = Decision.accept p s b (c.config.threshold (c.intentAt p)) := by
  unfold judged
  simp only
  split
  · rename_i hreached
    constructor
    · intro h
      cases h
      exact ⟨hreached.1, hreached.2, rfl⟩
    · rintro ⟨_, _, rfl⟩
      rfl
  · rename_i hshort
    constructor
    · intro h
      cases h
    · exact fun h => absurd ⟨h.1, h.2.1⟩ hshort

theorem judged_eq_error_iff {s : Symbol} {b : Breakdown} {q : Position} : judged c p s b = .error q ↔
    q = p ∧ ¬(c.config.threshold (c.intentAt p) ≤ b.psi ∧ b.components.reaches c.config.componentMinimums = true) := by
  unfold judged
  simp only
  split
  · rename_i hreached
    constructor
    · intro h
      cases h
    · exact fun h => absurd hreached h.2
  · rename_i hshort
    constructor
    · intro h
      cases h
      exact ⟨rfl, hshort⟩
    · rintro ⟨rfl, _⟩
      rfl

/-- A symbol that reaches the threshold of its intent and the minimums is accepted. -/
theorem verdict_eq_accept {s : Symbol} {b : Breakdown} (hs : c.grid.symbolAt? p = some s) (hb : c.breakdown s p = .ok b)
    (hreached : c.config.threshold (c.intentAt p) ≤ b.psi) (hminimums : b.components.reaches c.config.componentMinimums = true) :
    verdict c p = .ok (Decision.accept p s b (c.config.threshold (c.intentAt p))) := by
  unfold verdict appraise
  rw [Context.symbolAt_eq_ok hs, ok_bind, hb, ok_bind, judged_eq_ok_iff.2 ⟨hreached, hminimums, rfl⟩]
  rfl

/-- An appraised position is accepted with its verdict, or it is flagged and its verdict is its settlement. -/
theorem appraise_eq_ok {j : Binary64 × Except Position Decision} (h : appraise c p = .ok j) :
    (∃ d, j.2 = .ok d ∧ d.position = p ∧ verdict c p = .ok d) ∨ j.2 = .error p ∧ verdict c p = settlement c p := by
  have hverdict : verdict c p = match j.2 with | .ok d => .ok d | .error _ => settlement c p := by
    unfold verdict
    rw [h]
    rfl
  obtain ⟨s, _, h⟩ := ok_of_bind h
  obtain ⟨b, _, h⟩ := ok_of_bind h
  cases h
  rcases judged_cases c p s b with ⟨d, hd, hposition, _⟩ | herror
  · simp only [hd] at hverdict ⊢
    exact Or.inl ⟨d, rfl, hposition, hverdict⟩
  · simp only [herror] at hverdict ⊢
    exact Or.inr ⟨trivial, hverdict⟩

theorem position_of_settlement {d : Decision} (h : settlement c p = .ok d) : d.position = p := by
  obtain ⟨s, _, h⟩ := ok_of_bind h
  obtain ⟨b, _, h⟩ := ok_of_bind h
  obtain ⟨r, _, h⟩ := ok_of_bind h
  cases h
  exact position_settle c p s b r

/-- The decisions of a survey are the verdicts on their positions. -/
theorem verdict_of_outcome {survey : Survey} (h : outcome c = .ok survey) : ∀ d ∈ survey.decisions, verdict c d.position = .ok d := by
  obtain ⟨scans, resolved, ⟨hscans, hresolved⟩, rfl⟩ := phases_of_outcome h
  intro d hd
  have happraised : ∀ s ∈ scans, ∃ judged, s.decisions = accepted judged ∧ s.flagged = flagged judged ∧
      ∀ j ∈ judged, ∃ p, appraise c p = .ok j := by
    intro s hs
    obtain ⟨unit, _, hscan⟩ := exists_of_forall₂ (forall₂_of_mapM hscans) hs
    obtain ⟨judged, hjudged, hscan⟩ := ok_of_bind hscan
    cases hscan
    refine ⟨judged, rfl, rfl, ?_⟩
    intro j hj
    obtain ⟨p, _, hp⟩ := exists_of_forall₂ (forall₂_of_mapM hjudged) hj
    exact ⟨p, hp⟩
  rcases List.mem_append.1 ((List.mergeSort_perm _ _).mem_iff.1 hd) with hd | hd
  · obtain ⟨s, hs, hd⟩ := List.mem_flatMap.1 hd
    obtain ⟨judged, hdecisions, _, hjudged⟩ := happraised s hs
    rw [hdecisions] at hd
    obtain ⟨j, hj, hjd⟩ := mem_accepted.1 hd
    obtain ⟨p, hp⟩ := hjudged j hj
    rcases appraise_eq_ok hp with ⟨d', hd', hposition, hverdict⟩ | ⟨herror, _⟩
    · rw [hd'] at hjd
      cases hjd
      rw [hposition]
      exact hverdict
    · rw [herror] at hjd
      cases hjd
  · obtain ⟨ds, hds, hd⟩ := List.mem_flatten.1 hd
    obtain ⟨s, hs, hsettled⟩ := exists_of_forall₂ (forall₂_of_mapM hresolved) hds
    obtain ⟨p, hp, hsettlement⟩ := exists_of_forall₂ (forall₂_of_mapM hsettled) hd
    obtain ⟨judged, _, hflagged, hjudged⟩ := happraised s (mem_of_mem_pending hs).1
    rw [hflagged] at hp
    obtain ⟨j, hj, hjp⟩ := mem_flagged.1 hp
    obtain ⟨q, hq⟩ := hjudged j hj
    rcases appraise_eq_ok hq with ⟨d', hd', _⟩ | ⟨herror, hverdict⟩
    · rw [hd'] at hjp
      cases hjp
    · rw [herror] at hjp
      cases hjp
      rw [position_of_settlement hsettlement, hverdict]
      exact hsettlement

/-- A verdict accepts the symbol, or settles the flagged position by its resolution. -/
theorem verdict_eq_ok {d : Decision} (h : verdict c p = .ok d) : ∃ s b, c.symbolAt p = .ok s ∧ c.breakdown s p = .ok b ∧
    (judged c p s b = .ok d ∧ d.status = .accepted ∨
      judged c p s b = .error p ∧ ∃ r, Resolution.outcome c p = .ok r ∧ d = settle c p s b r) := by
  obtain ⟨j, hj, h⟩ := ok_of_bind h
  obtain ⟨s, hs, hj⟩ := ok_of_bind hj
  obtain ⟨b, hb, hj⟩ := ok_of_bind hj
  cases hj
  refine ⟨s, b, hs, hb, ?_⟩
  rcases judged_cases c p s b with ⟨d', hd', _, hstatus⟩ | herror
  · simp only [hd'] at h ⊢
    cases h
    exact Or.inl ⟨rfl, hstatus⟩
  · simp only [herror] at h ⊢
    obtain ⟨s', hs', h⟩ := ok_of_bind h
    obtain ⟨b', hb', h⟩ := ok_of_bind h
    obtain ⟨r, hr, h⟩ := ok_of_bind h
    cases h
    cases hs.symm.trans hs'
    cases hb.symm.trans hb'
    exact Or.inr ⟨trivial, r, hr, rfl⟩

end Survey

end TokenForest
