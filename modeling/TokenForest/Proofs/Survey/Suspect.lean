import TokenForest.Proofs.Binary64.Mean
import TokenForest.Proofs.Grid.Index
import TokenForest.Proofs.Session
import TokenForest.Proofs.Survey.Deadlines
import TokenForest.Proofs.Survey.Grounds

/-!
# Suspect rows

A row is suspect when the mean of its confidences, rounded to six places, is below the general threshold. The confidences are numbers of
six places, and no rounding brings their mean below the least of them: so one of them is below the general threshold, which is no
greater than the threshold of any intent. Its position is flagged, and the row has work for the resolver, whatever the scorer and the
deadline are.
-/

namespace TokenForest

namespace Survey

open Evaluating

variable {c : Context} {deadline : Deadline} {memo memo' final : Memo} {survey : Survey} {scans : List RowSurvey}
  {resolved : List (List Decision)} {unit : Lane × Nat} {s : RowSurvey} {p : Position} {d : Decision}

/-! ## The two phases of a survey -/

/-- The decisions on what scans have flagged, scan by scan. -/
def settleRows (c : Context) (deadline : Deadline) (scans : List RowSurvey) : Evaluating (List (List Decision)) :=
  runAll ((numbered (units c.grid).length (pending scans)).map (fun e => settleRow c (deadline e.1) e.2.flagged))

/-- A survey scans the rows, and resolves what is pending from the table that the scans leave. -/
theorem phases_of_run (h : (run c deadline).Runs memo survey final) : c.config.validate = .ok () ∧
    ∃ scans memo' resolved, (scanRows c deadline).Runs memo scans memo' ∧ (settleRows c deadline scans).Runs memo' resolved final ∧
      survey = ofPhases c scans resolved := by
  rw [run_eq] at h
  obtain ⟨_, memo₀, hvalid, hphases⟩ := h.of_bind
  obtain ⟨hvalid, hmemo⟩ := hvalid.of_lift
  rw [hmemo] at hphases
  obtain ⟨scans, memo', hscans, hsettle⟩ := hphases.of_bind
  obtain ⟨resolved, middle, hresolved, hend⟩ := hsettle.of_bind
  refine ⟨ok_of_mapError hvalid, scans, memo', resolved, hscans, ?_⟩
  simp only at hend
  split at hend
  · cases hend.of_lift.1
  · obtain ⟨rfl, rfl⟩ := hend.of_pure
    exact ⟨hresolved, rfl⟩

/-! ## Units -/

theorem unit_of_surveyRow {expired : Bool} (h : (surveyRow c expired unit).Produces s) : s.unit = unit := by
  rw [surveyRow_eq] at h
  simp only at h
  split at h
  · obtain rfl := h.pure
    rfl
  · obtain ⟨judged, _, h⟩ := h.bind
    obtain rfl := h.pure
    rfl

/-- The scans of the rows are scans of units. -/
theorem forall₂_scanRows (h : (scanRows c deadline).Runs memo scans memo') :
    List.Forall₂ (fun e s => (surveyRow c (deadline e.1) e.2).Produces s) (numbered 0 (units c.grid)) scans :=
  List.forall₂_map_left_iff.1 h.produces.runAll

/-- Every unit is scanned once, in order. -/
theorem map_unit_scanRows (h : (scanRows c deadline).Runs memo scans memo') : scans.map (·.unit) = units c.grid := by
  have hunits : List.Forall₂ (fun e s => e.2 = RowSurvey.unit s) (numbered 0 (units c.grid)) scans :=
    (forall₂_scanRows h).imp fun _ _ hs => (unit_of_surveyRow hs).symm
  have heq : List.Forall₂ Eq ((numbered 0 (units c.grid)).map (·.2)) (scans.map (·.unit)) :=
    List.forall₂_map_left_iff.2 (List.forall₂_map_right_iff.2 hunits)
  rw [List.forall₂_eq_eq_eq, map_snd_numbered] at heq
  exact heq.symm

/-- What a scan decides on or flags is in its row. -/
theorem unit_of_scanRows (h : (scanRows c deadline).Runs memo scans memo') (hs : s ∈ scans)
    (hp : p ∈ s.decisions.map (·.position) ∨ p ∈ s.flagged) : (p.lane, p.row) = s.unit := by
  obtain ⟨e, _, hproduces⟩ := exists_of_forall₂ (forall₂_scanRows h) hs
  rw [unit_of_surveyRow hproduces]
  exact (unit_of_scan hproduces hp).2

/-- The pending scans are those with flagged positions. -/
theorem pending_perm_filter (scans : List RowSurvey) : (pending scans).Perm (scans.filter (fun s => !s.flagged.isEmpty)) :=
  List.filter_append_perm (fun s : RowSurvey => s.profile.suspect) _

/-- A scan with flagged positions is one of the pending ones. -/
theorem mem_pending (hs : s ∈ scans) (hp : p ∈ s.flagged) : s ∈ pending scans := by
  rw [(pending_perm_filter scans).mem_iff, List.mem_filter]
  refine ⟨hs, ?_⟩
  rw [List.isEmpty_eq_false_iff.2 (List.ne_nil_of_mem hp)]
  rfl

/-- The pending scans are of different units. -/
theorem nodup_unit_pending (h : (scanRows c deadline).Runs memo scans memo') : ((pending scans).map (·.unit)).Nodup := by
  have hnodup := nodup_units c.grid
  rw [← map_unit_scanRows h] at hnodup
  rw [((pending_perm_filter scans).map (·.unit)).nodup_iff]
  exact hnodup.sublist (List.filter_sublist.map _)

/-! ## Confidences of positions -/

/-- The confidence of the symbol at a position, where it has one. -/
def psiAt? (c : Context) (p : Position) : Option Binary64 := (appraise c p).toOption.map (·.1)

theorem psiAt?_of_appraise {j : Binary64 × Except Position Decision} (h : appraise c p = .ok j) : psiAt? c p = some j.1 := by
  unfold psiAt?
  rw [h]
  rfl

theorem Measured.psiAt? (h : Measured c d) : psiAt? c d.position = some d.psi := by
  obtain ⟨b, hb, hpsi⟩ := h.psi
  have happraise : appraise c d.position = .ok (b.psi, judged c d.position d.original b) := by
    unfold appraise
    rw [Context.symbolAt_eq_ok h.original, ok_bind, hb]
    rfl
  rw [psiAt?_of_appraise happraise, hpsi]

/-- What the scan of a row accepts, it accepts with its confidence. -/
theorem measured_of_scan (h : scan c unit = .ok s) (hd : d ∈ s.decisions) : Measured c d := by
  obtain ⟨judged, hjudged, h⟩ := ok_of_bind h
  cases h
  obtain ⟨j, hj, hjd⟩ := mem_accepted.1 hd
  obtain ⟨p, _, hp⟩ := exists_of_forall₂ (forall₂_of_mapM hjudged) hj
  obtain ⟨t, ht, hp⟩ := ok_of_bind hp
  obtain ⟨b, hb, hp⟩ := ok_of_bind hp
  cases hp
  obtain ⟨_, _, rfl⟩ := judged_eq_ok_iff.1 hjd
  exact ⟨Context.symbolAt?_of_symbolAt ht, b, hb, rfl⟩

/-- The decision on a flagged position reports its confidence and does not accept its symbol, in time or not. -/
theorem resolvePosition_measured (expired : Bool) (p : Position) :
    (resolvePosition c expired p).Keeps c.Credible (fun d => Measured c d ∧ d.status ≠ .accepted) := by
  unfold resolvePosition
  apply Keeps.bind (P := fun s => c.grid.symbolAt? p = some s)
  · exact Keeps.lift fun s hs => Context.symbolAt?_of_symbolAt hs
  · intro s hs
    apply (Context.evaluate_credible_self hs).bind
    intro original horiginal
    split
    · exact Keeps.pure ⟨⟨hs, original, horiginal, rfl⟩, by simp [Decision.skip]⟩
    · apply (Resolution.resolve_keeps p).bind
      intro r _
      apply Keeps.pure
      rw [status_settle]
      exact ⟨⟨by simpa using hs, original, by simpa using horiginal, psi_settle ..⟩, Resolution.status_ne_accepted r⟩

/-- So do all decisions on flagged positions. -/
theorem measured_of_settleRows (hmemo : c.Credible memo) (h : (settleRows c deadline scans).Runs memo resolved memo') :
    ∀ d ∈ resolved.flatten, Measured c d ∧ d.status ≠ .accepted := by
  have hunits : ∀ e ∈ numbered (units c.grid).length (pending scans), (settleRow c (deadline e.1) e.2.flagged).Keeps c.Credible
      (fun ds => ∀ d ∈ ds, Measured c d ∧ d.status ≠ .accepted) :=
    fun e _ => Keeps.mapM fun p _ => resolvePosition_measured _ p
  obtain ⟨_, hall⟩ := (Keeps.runAll hunits).of_runs hmemo h
  intro d hd
  obtain ⟨ds, hds, hd⟩ := List.mem_flatten.1 hd
  exact hall ds hds d hd

theorem processed_of_scan (h : scan c unit = .ok s) : s.profile.processed = true := by
  obtain ⟨judged, _, h⟩ := ok_of_bind h
  cases h
  rfl

/-- Rows that are processed have their scans, and only these are suspect. -/
theorem scans_of_scanRows (hnodup : c.grid.positions.Nodup) (hmemo : c.Credible memo)
    (h : (scanRows c deadline).Runs memo scans memo') : c.Credible memo' ∧ ∀ s ∈ scans,
      (s.profile.processed = true → scan c s.unit = .ok s) ∧ (s.profile.suspect = true → s.profile.processed = true) := by
  have hunits : ∀ e ∈ numbered 0 (units c.grid), (surveyRow c (deadline e.1) e.2).Keeps c.Credible (fun s =>
      (s.profile.processed = true → scan c s.unit = .ok s) ∧ (s.profile.suspect = true → s.profile.processed = true)) := by
    intro e _
    apply (surveyRow_scans hnodup (deadline e.1) e.2).mono
    rintro s (rfl | hscan)
    · constructor
      · intro hprocessed
        cases hprocessed
      · intro hsuspect
        cases hsuspect
    · have hunit : s.unit = e.2 := by
        obtain ⟨judged, _, h⟩ := ok_of_bind hscan
        cases h
        rfl
      rw [hunit]
      exact ⟨fun _ => hscan, fun _ => processed_of_scan hscan⟩
  exact (Keeps.runAll hunits).of_runs hmemo h

/-! ## The mean of a row -/

/-- There is one decision on every position of a row. -/
theorem rowDecisions_perm (h : (run c deadline).Runs memo survey final) (lane : Lane) (row : Nat) :
    ((survey.rowDecisions lane row).map (·.position)).Perm (c.grid.rowPositions lane row) := by
  have hrow := (run_covers h.produces).1.filter (fun p => decide (p.row = row) && decide (p.lane = lane))
  rw [List.filter_map] at hrow
  unfold Grid.rowPositions Grid.lanePositions
  rw [List.filter_filter]
  exact hrow

/-- The confidences that are reported for the positions of a row are those that it was judged by. -/
theorem psis_perm {ps : List Position} {ds : List Decision} {judged : List (Binary64 × Except Position Decision)}
    (hjudged : ps.mapM (appraise c) = .ok judged) (hds : ∀ d ∈ ds, Measured c d) (hperm : (ds.map (·.position)).Perm ps) :
    (ds.map (·.psi)).Perm (judged.map (·.1)) := by
  have hinjective : Function.Injective (some : Binary64 → Option Binary64) := fun _ _ => Option.some.inj
  have hdecided : (ds.map (·.psi)).map some = (ds.map (·.position)).map (psiAt? c) := by
    rw [List.map_map, List.map_map]
    exact List.map_congr_left fun d hd => (hds d hd).psiAt?.symm
  have hscanned : List.Forall₂ Eq (ps.map (psiAt? c)) ((judged.map (·.1)).map some) := by
    rw [List.map_map]
    refine List.forall₂_map_left_iff.2 (List.forall₂_map_right_iff.2 ((forall₂_of_mapM hjudged).imp ?_))
    exact fun p j hj => psiAt?_of_appraise hj
  rw [List.forall₂_eq_eq_eq] at hscanned
  rw [← List.map_perm_map_iff hinjective, hdecided, ← hscanned]
  exact hperm.map _

/-- A position is appraised with a settled confidence, and it is flagged when this is below the general threshold. -/
theorem flagged_of_low (htheta : c.config.thetaMin ≠ .nan) {j : Binary64 × Except Position Decision} (h : appraise c p = .ok j) :
    j.1.Settled ∧ (j.1 < c.config.thetaMin → j.2 = .error p) := by
  obtain ⟨t, _, h⟩ := ok_of_bind h
  obtain ⟨b, hb, h⟩ := ok_of_bind h
  cases h
  have hsettled := Context.settled_of_breakdown hb
  refine ⟨hsettled, fun hlow => judged_eq_error_iff.2 ⟨rfl, fun hreached => ?_⟩⟩
  have hfloor := Binary64.le_trans (Config.thetaMin_le_threshold htheta (c.intentAt p)) hreached.1
  exact (Binary64.not_lt hsettled.ne_nan htheta).2 hfloor hlow

/-- The rows of a grid have positions. -/
theorem rowPositions_ne_nil (h : unit ∈ units c.grid) : c.grid.rowPositions unit.1 unit.2 ≠ [] := by
  obtain ⟨lane, _, h⟩ := List.mem_flatMap.1 h
  obtain ⟨row, hrow, rfl⟩ := List.mem_map.1 h
  obtain ⟨p, hp, hlane, hrow⟩ := Grid.mem_rows.1 hrow
  exact List.ne_nil_of_mem (Grid.mem_rowPositions.2 ⟨hp, hlane, hrow⟩)

/-- A row whose mean is low, the computed one or the exact one, has a flagged position with a low confidence. -/
theorem exists_low_of_scan (htheta : c.config.thetaMin ≠ .nan) (hunit : unit ∈ units c.grid) (h : scan c unit = .ok s)
    {psis : List Binary64} (hpsis : ∀ judged,
      (c.grid.rowPositions unit.1 unit.2).mapM (appraise c) = .ok judged → psis.Perm (judged.map (·.1)))
    (hmean : s.profile.suspect = true ∧ s.profile.symbolCount < 2 ^ 64 ∨ Binary64.exactMean psis < c.config.thetaMin) :
    ∃ p ∈ s.flagged, ∃ psi, psiAt? c p = some psi ∧ psi < c.config.thetaMin := by
  obtain ⟨judged, hjudged, h⟩ := ok_of_bind h
  cases h
  have hrow := forall₂_of_mapM hjudged
  have hne : judged.map (·.1) ≠ [] := by
    intro hnil
    rw [List.map_eq_nil_iff] at hnil
    rw [hnil, List.forall₂_nil_right_iff] at hrow
    exact rowPositions_ne_nil hunit hrow
  have hsettled : ∀ psi ∈ judged.map (·.1), psi.Settled := by
    intro psi hpsi
    obtain ⟨j, hj, rfl⟩ := List.mem_map.1 hpsi
    obtain ⟨p, _, hp⟩ := exists_of_forall₂ hrow hj
    exact (flagged_of_low htheta hp).1
  have hlow : ∃ psi ∈ judged.map (·.1), psi < c.config.thetaMin := by
    rcases hmean with ⟨hsuspect, hcount⟩ | hexact
    · have hmean : meanOf (judged.map (·.1)) = (Binary64.mean (judged.map (·.1))).roundSix := by
        unfold meanOf meanBy
        rw [List.isEmpty_eq_false_iff.2 hne]
        rfl
      have hcount : (judged.map (·.1)).length < 2 ^ 64 := by
        rw [List.length_map]
        exact hcount
      exact Binary64.exists_lt_of_mean hsettled hne (Or.inl ⟨hmean, hcount⟩) (of_decide_eq_true hsuspect)
    · rw [Binary64.exactMean_perm (hpsis judged hjudged)] at hexact
      exact Binary64.exists_lt_of_mean hsettled hne (Or.inr rfl) hexact
  obtain ⟨psi, hpsi, hlow⟩ := hlow
  obtain ⟨j, hj, rfl⟩ := List.mem_map.1 hpsi
  obtain ⟨p, _, hp⟩ := exists_of_forall₂ hrow hj
  exact ⟨p, mem_flagged.2 ⟨j, hj, (flagged_of_low htheta hp).2 hlow⟩, j.1, psiAt?_of_appraise hp, hlow⟩

/-! ## Work for the resolver -/

/-- Every decision on a processed row reports the confidence of its symbol. -/
theorem measured_of_processed (hnodup : c.grid.positions.Nodup) (hmemo : c.Credible memo)
    (hscans : (scanRows c deadline).Runs memo scans memo') (hresolved : (settleRows c deadline scans).Runs memo' resolved final)
    (hs : s ∈ scans) (hprocessed : s.profile.processed = true) {d : Decision}
    (hd : d ∈ (ofPhases c scans resolved).rowDecisions s.profile.lane s.profile.row) : Measured c d := by
  obtain ⟨hmemo', hall⟩ := scans_of_scanRows hnodup hmemo hscans
  obtain ⟨hd, hunit⟩ := List.mem_filter.1 hd
  rcases List.mem_append.1 ((List.mergeSort_perm _ _).mem_iff.1 hd) with hmem | hmem
  · obtain ⟨s', hs', hmem⟩ := List.mem_flatMap.1 hmem
    have hsame : s'.unit = s.unit := by
      rw [← unit_of_scanRows hscans hs' (Or.inl (List.mem_map_of_mem hmem))]
      simp only [Bool.and_eq_true, decide_eq_true_eq] at hunit
      exact Prod.ext hunit.2 hunit.1
    have honce := nodup_units c.grid
    rw [← map_unit_scanRows hscans] at honce
    rw [List.inj_on_of_nodup_map honce hs' hs hsame] at hmem
    exact measured_of_scan ((hall s hs).1 hprocessed) hmem
  · exact (measured_of_settleRows hmemo' hresolved d hmem).1

/-- A flagged position is decided on without accepting its symbol. -/
theorem exists_settled_of_flagged (hmemo : c.Credible memo) (h : (settleRows c deadline scans).Runs memo resolved memo')
    (hs : s ∈ pending scans) (hp : p ∈ s.flagged) :
    ∃ d ∈ resolved.flatten, d.position = p ∧ Measured c d ∧ d.status ≠ .accepted := by
  have hproduces := List.forall₂_map_left_iff.1 h.produces.runAll
  rw [← map_snd_numbered (units c.grid).length (pending scans)] at hs
  obtain ⟨e, he, rfl⟩ := List.mem_map.1 hs
  obtain ⟨ds, hds, hsettled⟩ := exists_of_forall₂_left hproduces he
  rw [← (settleRow_eq hsettled).1] at hp
  obtain ⟨d, hd, rfl⟩ := List.mem_map.1 hp
  have hmem : d ∈ resolved.flatten := List.mem_flatten.2 ⟨ds, hds, hd⟩
  exact ⟨d, hmem, rfl, measured_of_settleRows hmemo h d hmem⟩

/-- A suspect row of a survey of an organized grid has work for the resolver, whatever the scorer and the deadline are. -/
theorem run_suspect {records : List TokenRecord} {staged : Bool} {source : Grammar}
    (hgrid : Grid.organize records staged source = .ok c.grid) (hmemo : c.Credible memo)
    (h : ((run c deadline).run.run memo).1 = .ok survey) {profile : RowProfile} (hprofile : profile ∈ survey.rowProfiles)
    (hsuspect : Suspect c survey profile) : ∃ scans memo', (scanRows c deadline).Runs memo scans memo' ∧
      survey.rowProfiles = scans.map (·.profile) ∧ HasWork c survey scans profile := by
  have hnodup := Grid.nodup_positions hgrid
  have hrun := runs_of_answer h
  obtain ⟨hvalid, scans, memo', resolved, hscans, hresolved, rfl⟩ := phases_of_run hrun
  obtain ⟨hmemo', hall⟩ := scans_of_scanRows hnodup hmemo hscans
  obtain ⟨s, hs, rfl⟩ := List.mem_map.1 hprofile
  have hprocessed : s.profile.processed = true := by
    cases hsuspect with
    | computed hsuspect _ => exact (hall s hs).2 hsuspect
    | exact hprocessed _ => exact hprocessed
  have hunit : s.unit ∈ units c.grid := by
    rw [← map_unit_scanRows hscans]
    exact List.mem_map_of_mem hs
  have hpsis := fun judged (hjudged : (c.grid.rowPositions s.unit.1 s.unit.2).mapM (appraise c) = .ok judged) =>
    psis_perm hjudged (fun d => measured_of_processed hnodup hmemo hscans hresolved hs hprocessed) (rowDecisions_perm hrun _ _)
  have hlow : ∃ p ∈ s.flagged, ∃ psi, psiAt? c p = some psi ∧ psi < c.config.thetaMin := by
    apply exists_low_of_scan (Config.thetaMin_ne_nan hvalid) hunit ((hall s hs).1 hprocessed) hpsis
    cases hsuspect with
    | computed hsuspect hcount => exact Or.inl ⟨hsuspect, hcount⟩
    | exact _ hmean => exact Or.inr hmean
  obtain ⟨p, hp, psi, hpsi, hlow⟩ := hlow
  have hpending := mem_pending hs hp
  obtain ⟨d, hd, rfl, hmeasured, hstatus⟩ := exists_settled_of_flagged hmemo' hresolved hpending hp
  cases hpsi.symm.trans hmeasured.psiAt?
  refine ⟨scans, memo', hscans, rfl, hprocessed, ⟨d, ?_, hmeasured, hlow, hstatus, s, hpending, rfl, hp⟩, ?_⟩
  · obtain ⟨hlane, hrow⟩ := Prod.mk.inj (unit_of_scanRows hscans hs (Or.inr hp))
    refine List.mem_filter.2 ⟨(List.mergeSort_perm _ _).mem_iff.2 (List.mem_append_right _ hd), ?_⟩
    simp only [hlane, hrow, decide_true, Bool.and_self]
  · exact List.count_eq_one_of_mem (nodup_unit_pending hscans) (List.mem_map_of_mem hpending)

/-- The row of two identifiers is suspect, since one of them does not fit its tag. -/
theorem suspect_scan_pair : (match scan (.standard Session.pairGrid .default .default) (none, 0) with
    | .ok s => decide (s.profile.suspect = true ∧ s.profile.symbolCount < 2 ^ 64)
    | .error _ => false) = true := by decide +kernel

open Session in
/-- The row of the two identifiers has work for the resolver. -/
theorem run_suspect_pair : ∃ survey profile, ((run (.standard pairGrid .default .default) .never).run.run .empty).1 = .ok survey ∧
    profile ∈ survey.rowProfiles ∧ profile.suspect = true ∧
      ∃ scans memo', (scanRows (.standard pairGrid .default .default) .never).Runs .empty scans memo' ∧
        survey.rowProfiles = scans.map (·.profile) ∧ HasWork (.standard pairGrid .default .default) survey scans profile := by
  obtain ⟨survey, h⟩ := (concludes_surveyAfter organize_pairRecords Config.validate_default [] .default).exists_ok known_default
  have houtcome := h
  rw [surveyAfter_eq (Grid.nodup_positions organize_pairRecords)] at houtcome
  obtain ⟨scans, resolved, hphases, hsurvey⟩ := phases_of_outcome houtcome
  have hunits : ((none, 0) : Lane × Nat) ∈ units pairGrid := by decide
  obtain ⟨s, hs, hscan⟩ := exists_of_forall₂_left (forall₂_of_mapM hphases.scanned) hunits
  have hsuspect := suspect_scan_pair
  rw [hscan] at hsuspect
  obtain ⟨hsuspect, hcount⟩ := of_decide_eq_true hsuspect
  have hprofile : s.profile ∈ survey.rowProfiles := by
    rw [hsurvey]
    exact List.mem_map_of_mem hs
  rw [surveyAfter_nil] at h
  exact ⟨survey, s.profile, h, hprofile, hsuspect,
    run_suspect organize_pairRecords Context.credible_empty h hprofile (.computed hsuspect hcount)⟩

end Survey

end TokenForest
