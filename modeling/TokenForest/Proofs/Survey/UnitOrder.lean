import TokenForest.Proofs.Survey.Outcome
import TokenForest.Survey.Outcomes

/-!
# The order of the units

The rows of a survey may be scanned in any order, and the rows with flagged positions may be resolved in any order: the decisions
are the same. Each unit finds what it finds by itself, and the decisions are put into source order at the end.
-/

namespace TokenForest

namespace Survey

open Evaluating

variable {c : Context} {rows rows' : List (Lane × Nat)} {arrange arrange' : List RowSurvey → List RowSurvey}

/-- With a truthful table it decides what the two phases decide. -/
theorem decideIn_eq_ok_iff {memo : Memo} (hscorer : c.scorer = .standard) (hnodup : c.grid.positions.Nodup)
    (hmemo : Context.Truthful c.grid memo) {decisions : List Decision} :
    ((decideIn c rows arrange).run.run memo).1 = .ok decisions ↔
      ∃ scans resolved, Phases c rows arrange scans resolved ∧ inOrder (decided scans resolved) = decisions := by
  have hcomputes : (decideIn c rows arrange).Computes (Context.Truthful c.grid) (do
      let scans ← rows.mapM (scan c)
      let resolved ← (arrange scans).mapM (fun s => s.flagged.mapM (settlement c))
      return inOrder (decided scans resolved)) := by
    unfold decideIn
    refine (Computes.runAll fun unit _ => surveyRow_computes hscorer hnodup unit).bind fun scans _ => ?_
    exact (Computes.runAll fun s _ => settleRow_computes hscorer s.flagged).bind fun resolved _ => Computes.pure _
  rw [(hcomputes memo hmemo).1]
  constructor
  · intro h
    obtain ⟨scans, hscans, h⟩ := ok_of_bind h
    obtain ⟨resolved, hresolved, h⟩ := ok_of_bind h
    cases h
    exact ⟨scans, resolved, ⟨hscans, hresolved⟩, rfl⟩
  · rintro ⟨scans, resolved, hphases, rfl⟩
    rw [hphases.scanned, ok_bind, hphases.settled]
    rfl

/-- Scans in another order are pending in another order. -/
theorem pending_perm_of_perm {scans scans' : List RowSurvey} (h : scans.Perm scans') : (pending scans).Perm (pending scans') :=
  ((h.filter _).filter _).append ((h.filter _).filter _)

/-- In other orders the two phases decide the same. -/
theorem Phases.exists_of_perm {scans : List RowSurvey} {resolved : List (List Decision)} (hrows : rows'.Perm rows)
    (harrange : ∀ {scans scans' : List RowSurvey}, scans'.Perm scans → (arrange' scans').Perm (arrange scans))
    (h : Phases c rows arrange scans resolved) :
    ∃ scans' resolved', Phases c rows' arrange' scans' resolved' ∧ (decided scans' resolved').Perm (decided scans resolved) := by
  obtain ⟨scans', hscans', hperm⟩ := exists_mapM_of_perm hrows h.scanned
  obtain ⟨resolved', hresolved', hperm'⟩ := exists_mapM_of_perm (harrange hperm) h.settled
  refine ⟨scans', resolved', ⟨hscans', hresolved'⟩, ?_⟩
  exact (hperm.flatMap_right _).append hperm'.flatten

/-- Decisions on different positions are put into one order. -/
theorem inOrder_eq_of_perm {decisions decisions' : List Decision} (hperm : decisions.Perm decisions')
    (hnodup : (decisions'.map (·.position)).Nodup) : inOrder decisions = inOrder decisions' := by
  have hsame := List.mergeSort_perm decisions' (fun a b => a.position.le b.position)
  apply Position.mergeSort_eq_of_perm (hperm.trans hsame.symm)
  · apply List.pairwise_mergeSort
    · exact fun a b d => Position.le_trans a.position b.position d.position
    · exact fun a b => Position.le_total a.position b.position
  · exact (hsame.map (·.position)).nodup_iff.2 hnodup

/-- In whatever order the rows are scanned and resolved, the decisions are those of the survey, and there are none just when the survey
fails. -/
theorem decideIn_eq_ok_iff_outcome {memo : Memo} (hscorer : c.scorer = .standard) (hnodup : c.grid.positions.Nodup)
    (hvalid : c.config.validate = .ok ()) (hmemo : Context.Truthful c.grid memo) (hrows : rows.Perm (units c.grid))
    (harrange : ∀ scans, (arrange scans).Perm (pending scans)) {decisions : List Decision} :
    ((decideIn c rows arrange).run.run memo).1 = .ok decisions ↔
      ∃ survey, outcome c = .ok survey ∧ survey.decisions = decisions := by
  rw [decideIn_eq_ok_iff hscorer hnodup hmemo]
  constructor
  · rintro ⟨scans, resolved, hphases, rfl⟩
    have hpending : ∀ {scans scans' : List RowSurvey}, scans'.Perm scans → (pending scans').Perm (arrange scans) :=
      fun h => (pending_perm_of_perm h).trans (harrange _).symm
    obtain ⟨scans', resolved', hphases', hperm⟩ := hphases.exists_of_perm hrows.symm hpending
    refine ⟨_, hphases'.outcome_eq hscorer hnodup hvalid, ?_⟩
    have hpositions := hphases'.decided_perm hscorer hnodup
    exact (inOrder_eq_of_perm hperm.symm (hpositions.nodup_iff.2 hnodup)).symm
  · rintro ⟨survey, hsurvey, rfl⟩
    obtain ⟨scans, resolved, hphases, rfl⟩ := phases_of_outcome hsurvey
    have harranged : ∀ {scans scans' : List RowSurvey}, scans'.Perm scans → (arrange scans').Perm (pending scans) :=
      fun h => (harrange _).trans (pending_perm_of_perm h)
    obtain ⟨scans', resolved', hphases', hperm⟩ := hphases.exists_of_perm hrows harranged
    refine ⟨scans', resolved', hphases', ?_⟩
    have hpositions := hphases.decided_perm hscorer hnodup
    exact inOrder_eq_of_perm hperm (hpositions.nodup_iff.2 hnodup)

end Survey

end TokenForest
