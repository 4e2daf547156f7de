import TokenForest.Proofs.Survey.UnitOrder

/-!
# Other averages

How the mean of a row is computed decides which rows are suspect, and so in which order rows are resolved. Without a deadline nothing
else depends on it: with any average the decisions, the columns and the lanes are the same, and the rows differ in their means and in
what is suspect by them.
-/

namespace TokenForest

namespace Survey

open Evaluating

variable {c : Context} {average : List Binary64 → Binary64} {scans scans' : List RowSurvey}

/-- Two scans of the same cells. -/
structure SameCells (s s' : RowSurvey) : Prop where
  profile : s.profile.SameRow s'.profile
  decisions : s.decisions = s'.decisions
  flagged : s.flagged = s'.flagged

/-- The cells of a row are scanned alike with any average. -/
theorem exists_scanBy {unit : Lane × Nat} {s : RowSurvey} (h : scanBy average c unit = .ok s) (average' : List Binary64 → Binary64) :
    ∃ s', scanBy average' c unit = .ok s' ∧ SameCells s s' := by
  obtain ⟨judged, hjudged, h⟩ := ok_of_bind h
  cases h
  refine ⟨scannedBy average' c unit.1 unit.2 judged, ?_, ⟨⟨rfl, rfl, rfl, rfl⟩, rfl, rfl⟩⟩
  unfold scanBy
  rw [hjudged]
  rfl

theorem exists_scans {rows : List (Lane × Nat)} (h : rows.mapM (scanBy average c) = .ok scans) (average' : List Binary64 → Binary64) :
    ∃ scans', rows.mapM (scanBy average' c) = .ok scans' ∧ List.Forall₂ SameCells scans scans' := by
  have hall := forall₂_of_mapM h
  clear h
  induction hall with
  | nil => exact ⟨[], rfl, .nil⟩
  | cons hunit _ ih =>
    obtain ⟨s', hs', hsame⟩ := exists_scanBy hunit average'
    obtain ⟨scans', hscans', hrest⟩ := ih
    refine ⟨s' :: scans', ?_, .cons hsame hrest⟩
    rw [List.mapM_cons, hs', ok_bind, hscans']
    rfl

/-- The pending rows are those with flagged positions, whichever of them come first. -/
theorem flagged_pending_perm (scans : List RowSurvey) :
    ((pending scans).map (·.flagged)).Perm ((scans.map (·.flagged)).filter (fun ps => !ps.isEmpty)) := by
  have hwaiting : (pending scans).Perm (scans.filter (fun s => !s.flagged.isEmpty)) :=
    List.filter_append_perm (fun s : RowSurvey => s.profile.suspect) _
  rw [List.filter_map]
  exact hwaiting.map _

/-- The same cells are settled alike, in another order perhaps. -/
theorem exists_settled_of_sameCells {resolved : List (List Decision)} (h : List.Forall₂ SameCells scans scans')
    (hsettled : (pending scans).mapM (fun s => s.flagged.mapM (settlement c)) = .ok resolved) :
    ∃ resolved', (pending scans').mapM (fun s => s.flagged.mapM (settlement c)) = .ok resolved' ∧ resolved'.Perm resolved := by
  have hflagged : scans.map (·.flagged) = scans'.map (·.flagged) := by
    rw [← List.forall₂_eq_eq_eq, List.forall₂_map_left_iff, List.forall₂_map_right_iff]
    exact h.imp fun _ _ hs => hs.flagged
  have hperm : ((pending scans').map (·.flagged)).Perm ((pending scans).map (·.flagged)) :=
    (flagged_pending_perm scans').trans (hflagged ▸ (flagged_pending_perm scans).symm)
  have hmap : ∀ waiting : List RowSurvey, waiting.mapM (fun s => s.flagged.mapM (settlement c)) =
      (waiting.map (·.flagged)).mapM (fun ps => ps.mapM (settlement c)) := by
    intro waiting
    rw [List.mapM_map]
    rfl
  rw [hmap] at hsettled ⊢
  exact exists_mapM_of_perm hperm hsettled

/-- Only different positions are decided on once. -/
theorem nodup_of_decidedTwice? {decisions : List Decision} (h : decidedTwice? decisions = none) : (decisions.map (·.position)).Nodup := by
  induction decisions with
  | nil => exact .nil
  | cons d rest ih =>
    rw [decidedTwice?] at h
    split at h
    · cases h
    · rename_i honce
      rw [List.map_cons, List.nodup_cons]
      refine ⟨fun hmem => honce ?_, ih h⟩
      obtain ⟨e, he, hposition⟩ := List.mem_map.1 hmem
      exact List.any_eq_true.2 ⟨e, he, decide_eq_true hposition⟩

/-- A survey finds the same with any average. -/
theorem exists_outcomeBy {survey : Survey} (h : outcomeBy average c = .ok survey) (average' : List Binary64 → Binary64) :
    ∃ survey', outcomeBy average' c = .ok survey' ∧ SameDecisions survey survey' := by
  obtain ⟨_, hvalid, h⟩ := ok_of_bind h
  obtain ⟨scans, hscans, h⟩ := ok_of_bind h
  obtain ⟨resolved, hresolved, h⟩ := ok_of_bind h
  obtain ⟨scans', hscans', hsame⟩ := exists_scans hscans average'
  obtain ⟨resolved', hresolved', hperm⟩ := exists_settled_of_sameCells hsame hresolved
  have hdecisions : scans'.flatMap (·.decisions) = scans.flatMap (·.decisions) := by
    have hmap : scans'.map (·.decisions) = scans.map (·.decisions) := by
      rw [← List.forall₂_eq_eq_eq, List.forall₂_map_left_iff, List.forall₂_map_right_iff]
      exact hsame.flip.imp fun _ _ hs => hs.decisions.symm
    rw [List.flatMap_def, List.flatMap_def, hmap]
  have hdecided : (decided scans' resolved').Perm (decided scans resolved) := by
    unfold decided
    rw [hdecisions]
    exact hperm.flatten.append_left _
  split at h
  · cases h
  rename_i honce
  cases h
  have hnodup := nodup_of_decidedTwice? honce
  have honce' : decidedTwice? (decided scans' resolved') = none :=
    decidedTwice?_eq_none ((hdecided.map (·.position)).nodup_iff.2 hnodup)
  refine ⟨ofPhases c scans' resolved', ?_, ⟨(inOrder_eq_of_perm hdecided hnodup).symm, rfl, rfl, ?_⟩⟩
  · unfold outcomeBy
    rw [hvalid, ok_bind, hscans', ok_bind, hresolved', ok_bind, honce']
    rfl
  · exact List.forall₂_map_left_iff.2 (List.forall₂_map_right_iff.2 (hsame.imp fun _ _ hs => hs.profile))

/-- Without a deadline a survey decides the same on every position, and measures the same columns and lanes, with whatever average the
means of the rows are computed. In particular `run` decides what a survey with any other average decides. -/
theorem runBy_decides {memo : Memo} {survey : Survey} (hscorer : c.scorer = .standard) (hnodup : c.grid.positions.Nodup)
    (hmemo : Context.Truthful c.grid memo) (h : ((runBy average c .never).run.run memo).1 = .ok survey)
    (average' : List Binary64 → Binary64) :
    ∃ survey', ((runBy average' c .never).run.run memo).1 = .ok survey' ∧ SameDecisions survey survey' := by
  rw [(runBy_computes average hscorer hnodup memo hmemo).1] at h
  rw [(runBy_computes average' hscorer hnodup memo hmemo).1]
  exact exists_outcomeBy h average'

end Survey

end TokenForest
