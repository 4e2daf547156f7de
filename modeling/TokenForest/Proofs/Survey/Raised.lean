import TokenForest.Proofs.Resolution.Raised
import TokenForest.Proofs.Survey.Locality

/-!
# Better evidence

The score of one record is raised, and the stream is organized and surveyed again. Only the decision on the position of the record may
change, and it gets no worse: its confidence does not fall, and a symbol that was accepted stays accepted and one that was resolved stays
resolved unless it is accepted now. The best confidence does not fall either, but where a flagged symbol is accepted now: an accepted
decision has its own confidence as the best one, and no other reading has been tried.
-/

namespace TokenForest

/-- The symbol with another score. -/
def Symbol.rescore (s : Symbol) (score : Binary64) : Symbol := { s with lexicalScore := score }

theorem TokenRecord.samePlace_rescore (r : TokenRecord) (score : Binary64) : r.SamePlace (r.rescore score) := ⟨rfl, rfl, rfl⟩

namespace Grid

variable {staged : Bool} {grammar : Grammar} {number : Nat} {p : Position} {r : TokenRecord} {s : Symbol}

/-- The symbol of a record with another score has this score. -/
theorem symbolOf_rescore (h : symbolOf grammar number p r = .ok s) {score : Binary64} (hscore : score.inUnit = true) :
    symbolOf grammar number p (r.rescore score) = .ok (s.rescore score) := by
  obtain ⟨hlabel, hpasses, hint, hhint, rfl⟩ := symbolOf_eq_ok_iff.1 h
  obtain ⟨hid, hclass, hknown, hlexeme, _⟩ := Symbol.fault?_eq_none_iff.1 hpasses
  exact symbolOf_eq_ok_iff.2 ⟨hlabel, Symbol.fault?_eq_none_iff.2 ⟨hid, hclass, hknown, hlexeme, hscore⟩, hint, hhint, rfl⟩

/-- The symbol of a record is raised with the score of the record. -/
theorem raised_of_symbolOf (h : symbolOf grammar number p r = .ok s) {score : Binary64} (hscore : score.inUnit = true)
    (hraised : r.score ≤ score) : s.Raised (s.rescore score) := by
  obtain ⟨_, hpasses, _, _, rfl⟩ := symbolOf_eq_ok_iff.1 h
  exact ⟨rfl, hraised, (Symbol.fault?_eq_none_iff.1 hpasses).2.2.2.2, hscore⟩

/-- Every record of a stream that is organized is placed. -/
theorem exists_placed {records : List TokenRecord} {grid : Grid} (hgrid : organize records staged grammar = .ok grid) {k : Nat}
    (hk : records[k]? = some r) : ∃ p, PlacedAt staged grammar records k p := by
  obtain ⟨hlength, _⟩ := List.getElem?_eq_some_iff.1 hk
  obtain ⟨out, hout, _⟩ := ok_of_bind hgrid
  rw [← List.take_append_drop (k + 1) records, placeAll_append] at hout
  obtain ⟨placed, hplaced, _⟩ := ok_of_bind hout
  have hfront := hplaced
  rw [List.take_succ_eq_append_getElem hlength, placeAll_append] at hfront
  obtain ⟨earlier, _, hfront⟩ := ok_of_bind hfront
  rw [placeAll] at hfront
  obtain ⟨cell, _, hfront⟩ := ok_of_bind hfront
  cases hfront
  exact ⟨cell.1, cell.2, earlier, hplaced⟩

end Grid

/-- No state is better than accepted. -/
theorem Status.noWorse_accepted {a : Status} (h : a ∈ processed) : a.NoWorse .accepted := by
  refine ⟨h, by decide, ?_⟩
  simp only [processed, List.mem_cons, List.not_mem_nil, or_false] at h
  rcases h with rfl | rfl | rfl <;> decide

namespace Survey

open Resolution

variable {grid grid' : Grid} {config : Config} {grammar : Grammar} {p : Position} {s s' : Symbol} {d d' : Decision}

/-! ## Other positions -/

/-- Where the symbol of a position has one score in both grids, the verdict on it is the same. -/
theorem verdict_rescored (h : grid.Rescored grid') (hp : grid.symbolAt? p = grid'.symbolAt? p) :
    verdict (.standard grid config grammar) p = verdict (.standard grid' config grammar) p := by
  have hsymbol : (Context.standard grid config grammar).symbolAt p = (Context.standard grid' config grammar).symbolAt p :=
    Grid.cell_congr hp
  have hjudged : ∀ s b, judged (.standard grid config grammar) p s b = judged (.standard grid' config grammar) p s b := by
    intro s b
    unfold judged
    rw [Context.intentAt_rescored h]
    rfl
  have happraise : appraise (.standard grid config grammar) p = appraise (.standard grid' config grammar) p := by
    unfold appraise
    rw [hsymbol]
    refine bind_congr fun s => ?_
    simp only [hjudged]
    rw [Context.breakdown_rescored h]
  have hsettlement : settlement (.standard grid config grammar) p = settlement (.standard grid' config grammar) p := by
    unfold settlement
    rw [hsymbol, outcome_rescored h hp]
    refine bind_congr fun s => ?_
    rw [Context.breakdown_rescored h]
    rfl
  unfold verdict
  rw [happraise, hsettlement]

/-! ## The position of the record -/

/-- What a resolution decides is processed. -/
theorem status_mem_processed (r : Resolution) : r.status ∈ Status.processed := by
  unfold Resolution.status Status.processed
  split <;> simp

/-- A resolution that resolves where another one does is no worse. -/
theorem noWorse_of_resolved {r r' : Resolution} (h : r.status = .resolved → r'.status = .resolved) : r.status.NoWorse r'.status := by
  refine ⟨status_mem_processed r, status_mem_processed r', ?_⟩
  cases hchosen : r.chosen with
  | none =>
    rw [status_eq_manualReview_iff.2 hchosen]
    exact Nat.zero_le _
  | some chosen =>
    have hresolved := status_eq_resolved_iff.2 (hchosen ▸ Option.some_ne_none chosen)
    exact Nat.le_of_eq (congrArg Status.processed.idxOf (hresolved.trans (h hresolved).symm))

/-- The verdict on a symbol is no worse with a greater score. -/
theorem improves_of_raised (htheta : config.thetaMin ≠ .nan) (hdistinct : grammar.DistinctReadings) (h : s.Raised s')
    (hgrid : grid.Rescored grid') (hs : grid.symbolAt? p = some s) (hs' : grid'.symbolAt? p = some s')
    (hd : verdict (.standard grid config grammar) p = .ok d) (hd' : verdict (.standard grid' config grammar) p = .ok d') :
    d.Improves d' := by
  obtain ⟨t, b, ht, hb, hcases⟩ := verdict_eq_ok hd
  obtain ⟨t', b', ht', hb', hcases'⟩ := verdict_eq_ok hd'
  cases hs.symm.trans (Context.symbolAt?_of_symbolAt ht)
  cases hs'.symm.trans (Context.symbolAt?_of_symbolAt ht')
  obtain ⟨b'', hb'', hbelow⟩ := exists_breakdown_raised h hgrid hb
  cases hb'.symm.trans hb''
  have hintent : (Context.standard grid config grammar).intentAt p = (Context.standard grid' config grammar).intentAt p :=
    Context.intentAt_rescored hgrid p
  rcases hcases with ⟨hjudged, _⟩ | ⟨herror, r, hr, rfl⟩
  · -- the symbol reaches its threshold and the minimums with the greater score, too
    obtain ⟨hreached, hminimums, rfl⟩ := judged_eq_ok_iff.1 hjudged
    rw [hintent] at hreached
    have haccept := verdict_eq_accept (c := .standard grid' config grammar) hs' hb' (Binary64.le_trans hreached hbelow.psi)
      (Components.reaches_mono hbelow.components hminimums)
    cases hd'.symm.trans haccept
    exact ⟨hbelow.psi, Status.noWorse_accepted (by simp [Status.processed, Decision.accept]), Or.inl hbelow.psi⟩
  · rcases hcases' with ⟨hjudged', _⟩ | ⟨_, r', hr', rfl⟩
    · obtain ⟨_, _, rfl⟩ := judged_eq_ok_iff.1 hjudged'
      refine ⟨?_, ?_, Or.inr ⟨?_, rfl, rfl⟩⟩
      · rw [psi_settle]
        exact hbelow.psi
      · rw [status_settle]
        exact Status.noWorse_accepted (status_mem_processed r)
      · rw [status_settle]
        exact status_ne_accepted r
    · have hoptimal := optimal_of_outcome (c := .standard grid config grammar) rfl htheta hdistinct hs hr
      have hoptimal' := optimal_of_outcome (c := .standard grid' config grammar) rfl htheta hdistinct hs' hr'
      refine ⟨?_, ?_, Or.inl ?_⟩
      · rw [psi_settle, psi_settle]
        exact hbelow.psi
      · rw [status_settle, status_settle]
        exact noWorse_of_resolved (resolved_raised h hgrid hoptimal hoptimal')
      · rw [bestConfidence_settle, bestConfidence_settle]
        exact best_raised h hgrid hoptimal hoptimal'

/-! ## The whole survey -/

open Session in
/-- Surveys of two grids that differ in the score of one symbol, which is greater in the second one. -/
theorem improvesAt_of_raised {records records' : List TokenRecord} {staged : Bool} {source : Grammar}
    (hgrid : Grid.organize records staged source = .ok grid) (hgrid' : Grid.organize records' staged source = .ok grid')
    (hvalid : config.validate = .ok ()) (hdistinct : grammar.DistinctReadings) (h : s.Raised s') (hrescored : grid.Rescored grid')
    (hs : grid.symbolAt? p = some s) (hs' : grid'.symbolAt? p = some s')
    (hothers : ∀ q, q ≠ p → grid.symbolAt? q = grid'.symbolAt? q) {steps steps' : List Step} {survey survey' : Survey}
    (hsurvey : surveyAfter grid steps config grammar = .ok survey) (hsurvey' : surveyAfter grid' steps' config grammar = .ok survey') :
    ImprovesAt p survey.decisions survey'.decisions := by
  obtain ⟨hpositions, hverdicts⟩ := positions_and_verdicts hgrid hvalid hsurvey
  obtain ⟨hpositions', hverdicts'⟩ := positions_and_verdicts hgrid' hvalid hsurvey'
  have hsame : survey.decisions.map (·.position) = survey'.decisions.map (·.position) := by
    rw [hpositions, hpositions', hrescored.positions]
  have hlength := congrArg List.length hsame
  rw [List.length_map, List.length_map] at hlength
  refine List.forall₂_iff_get.2 ⟨hlength, fun i hi hi' => ?_⟩
  have hd := hverdicts _ (List.get_mem survey.decisions ⟨i, hi⟩)
  have hd' := hverdicts' _ (List.get_mem survey'.decisions ⟨i, hi'⟩)
  have hposition : (survey.decisions.get ⟨i, hi⟩).position = (survey'.decisions.get ⟨i, hi'⟩).position := by
    have hget := congrArg (fun ps => ps[i]?) hsame
    simpa [hi, hi'] using hget
  rw [← hposition] at hd'
  generalize survey.decisions.get ⟨i, hi⟩ = d at hd hd' hposition ⊢
  generalize survey'.decisions.get ⟨i, hi'⟩ = d' at hd' hposition ⊢
  refine ⟨hposition, fun hne => ?_, fun hp => ?_⟩
  · rw [← verdict_rescored hrescored (hothers _ hne)] at hd'
    exact Except.ok.inj (hd.symm.trans hd')
  · rw [hp] at hd hd'
    exact improves_of_raised (Config.thetaMin_ne_nan hvalid) hdistinct h hrescored hs hs' hd hd'

open Session in
/-- Better evidence for one record is never worse and stays local. Where tags tell readings apart, the score of any record of an organized
stream may be raised: the stream is organized again, and the surveys of both streams conclude and decide the same on all positions but
that of the record, where the decision is no worse. -/
theorem run_improves {records : List TokenRecord} {staged : Bool} {source : Grammar}
    (hgrid : Grid.organize records staged source = .ok grid) (hvalid : config.validate = .ok ()) (hdistinct : grammar.DistinctReadings)
    {k : Nat} {r : TokenRecord} (hk : records[k]? = some r) {score : Binary64} (hscore : score.inUnit = true)
    (hraised : r.score ≤ score) : ∃ p grid', p ∈ grid.positions ∧ Grid.PlacedAt staged source records k p ∧
      Grid.organize (records.set k (r.rescore score)) staged source = .ok grid' ∧
      ∀ steps steps', Concludes (.standard grid config grammar) (surveyAfter grid steps config grammar) ∧
        Concludes (.standard grid' config grammar) (surveyAfter grid' steps' config grammar) ∧
        ∀ survey survey', surveyAfter grid steps config grammar = .ok survey → surveyAfter grid' steps' config grammar = .ok survey' →
          ImprovesAt p survey.decisions survey'.decisions := by
  obtain ⟨p, hplaced⟩ := Grid.exists_placed hgrid hk
  obtain ⟨s, hs, hsymbol⟩ := Grid.symbolAt?_of_placedAt hgrid hk hplaced
  have hp : p ∈ grid.positions := List.mem_map_of_mem (f := Prod.fst) (Grid.mem_cells_of_symbolAt? hs)
  have h := Grid.raised_of_symbolOf hsymbol hscore hraised
  have hgrid' := Grid.organize_set hgrid hk hplaced (r.samePlace_rescore score) (Grid.symbolOf_rescore hsymbol hscore)
  refine ⟨p, _, hp, hplaced, hgrid', fun steps steps' => ⟨concludes_surveyAfter hgrid hvalid steps grammar,
    concludes_surveyAfter hgrid' hvalid steps' grammar, fun survey survey' hsurvey hsurvey' => ?_⟩⟩
  exact improvesAt_of_raised hgrid hgrid' hvalid hdistinct h (Grid.rescored_amend hs h.same) hs (Grid.symbolAt?_amend_self hp)
    (fun q hq => (Grid.symbolAt?_amend_of_ne hq).symm) hsurvey hsurvey'

/-! ## The best confidence of an accepted symbol -/

/-- A name that is called, with a score. -/
def callRecords (score : Binary64) : List TokenRecord := [⟨.terminal, "call", "foo", some 0, some 0, none, none, none, "", score⟩]

/-- The grid of the name. -/
def callGrid (score : Binary64) : Grid :=
  ⟨false, [(⟨0, 0, none⟩, ⟨Grid.symbolName 1 ⟨0, 0, none⟩, .terminal, "foo", "call", .call, score, none, none, none⟩)]⟩

theorem organize_callRecords : Grid.organize (callRecords 0.79) (callGrid 0.79).staged .default = .ok (callGrid 0.79) ∧
    Grid.organize (callRecords 0.81) (callGrid 0.81).staged .default = .ok (callGrid 0.81) :=
  ⟨Grid.organize_of_ordered (by decide +kernel) (by decide) (by decide),
    Grid.organize_of_ordered (by decide +kernel) (by decide) (by decide)⟩

/-- The name is resolved with the lower score and accepted with the greater one, with a smaller best confidence. -/
theorem verdict_call : (match verdict (.standard (callGrid 0.79) .default .default) ⟨0, 0, none⟩,
      verdict (.standard (callGrid 0.81) .default .default) ⟨0, 0, none⟩ with
    | .ok d, .ok d' => decide (d.status = .resolved ∧ d'.status = .accepted ∧ d'.bestConfidence < d.bestConfidence)
    | _, _ => false) = true := by decide +kernel

open Session in
/-- Surveys of a grid with one cell have one decision, the verdict on it. -/
theorem decisions_callGrid {score : Binary64} {grid : Grid} (hcall : grid = callGrid score)
    (hgrid : Grid.organize (callRecords score) false .default = .ok grid) {survey : Survey}
    (h : surveyAfter grid [] .default .default = .ok survey) :
    ∃ d, survey.decisions = [d] ∧ d.position = ⟨0, 0, none⟩ ∧ verdict (.standard grid .default .default) ⟨0, 0, none⟩ = .ok d := by
  obtain ⟨hpositions, hverdicts⟩ := positions_and_verdicts hgrid Config.validate_default h
  rw [hcall] at hpositions
  obtain ⟨d, hd, hposition⟩ := List.map_eq_singleton_iff.1 hpositions
  have hverdict := hverdicts d (by simp [hd])
  rw [hposition] at hverdict
  exact ⟨d, hd, hposition, hverdict⟩

open Session in
/-- The best confidence may fall when the score of a record is raised: the name is resolved with the lower score, where its best
confidence is that of another reading, and accepted with the greater one. -/
theorem best_of_raised_call : (callRecords 0.79).map (·.rescore 0.81) = callRecords 0.81 ∧ ∃ grid grid' survey survey' d d',
    Grid.organize (callRecords 0.79) false .default = .ok grid ∧ Grid.organize (callRecords 0.81) false .default = .ok grid' ∧
    surveyAfter grid [] .default .default = .ok survey ∧ surveyAfter grid' [] .default .default = .ok survey' ∧
    survey.decisions = [d] ∧ survey'.decisions = [d'] ∧ d.status = .resolved ∧ d'.status = .accepted ∧
    d'.bestConfidence < d.bestConfidence := by
  obtain ⟨hgrid, hgrid'⟩ := organize_callRecords
  obtain ⟨survey, hsurvey⟩ := (concludes_surveyAfter hgrid Config.validate_default [] .default).exists_ok known_default
  obtain ⟨survey', hsurvey'⟩ := (concludes_surveyAfter hgrid' Config.validate_default [] .default).exists_ok known_default
  obtain ⟨d, hd, _, hverdict⟩ := decisions_callGrid rfl hgrid hsurvey
  obtain ⟨d', hd', _, hverdict'⟩ := decisions_callGrid rfl hgrid' hsurvey'
  have hcall := verdict_call
  rw [hverdict, hverdict'] at hcall
  exact ⟨rfl, _, _, survey, survey', d, d', hgrid, hgrid', hsurvey, hsurvey', hd, hd', of_decide_eq_true hcall⟩

open Session in
/-- The decision on the name is no worse with the greater score. -/
theorem run_improves_call : ∃ grid' survey survey' d d', Grid.organize (callRecords 0.81) false .default = .ok grid' ∧
    surveyAfter (callGrid 0.79) [] .default .default = .ok survey ∧ surveyAfter grid' [] .default .default = .ok survey' ∧
    survey.decisions = [d] ∧ survey'.decisions = [d'] ∧ d.Improves d' := by
  obtain ⟨hgrid, _⟩ := organize_callRecords
  have hmarks : (0.81 : Binary64).inUnit = true ∧ (0.79 : Binary64) ≤ 0.81 :=
    ⟨Binary64.inUnit_ofScientific (by decide), Binary64.ofScientific_le (by decide)⟩
  have hk : (callRecords 0.79)[0]? = some ⟨.terminal, "call", "foo", some 0, some 0, none, none, none, "", 0.79⟩ := rfl
  obtain ⟨p, grid', hp, _, hgrid', hall⟩ :=
    run_improves hgrid Config.validate_default distinctReadings_default hk hmarks.1 hmarks.2
  obtain ⟨hconcludes, hconcludes', himproves⟩ := hall [] []
  obtain ⟨survey, hsurvey⟩ := hconcludes.exists_ok known_default
  obtain ⟨survey', hsurvey'⟩ := hconcludes'.exists_ok known_default
  obtain ⟨d, hd, hposition, _⟩ := decisions_callGrid rfl hgrid hsurvey
  have himproves := himproves survey survey' hsurvey hsurvey'
  rw [ImprovesAt, hd] at himproves
  obtain ⟨d', _, ⟨_, _, hd'⟩, hnil, hdecisions⟩ := List.forall₂_cons_left_iff.1 himproves
  cases List.forall₂_nil_left_iff.1 hnil
  have hp : p = ⟨0, 0, none⟩ := List.mem_singleton.1 hp
  exact ⟨grid', survey, survey', d, d', hgrid', hsurvey, hsurvey', hd, hdecisions, hd' (hposition.trans hp.symm)⟩

end Survey

end TokenForest
