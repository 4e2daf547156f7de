import TokenForest.Config.Agreement
import TokenForest.Proofs.Session
import TokenForest.Proofs.Survey.Grounds

/-!
# Stricter configurations

A stricter configuration has the same weights and staging and no lower thresholds and minimums. It finds the same confidences, so it
accepts nothing that was flagged before and chooses no reading that was refused before.
-/

namespace TokenForest

/-! ## Minimums and intents -/

namespace Components

/-- Every component, also one that is not on the list, lies between 0 and 1. -/
theorem inUnit_value (components : Components) (name : String) : (components.value name).inUnit = true := by
  have hall : ∀ x ∈ components.named.map (·.2), x.inUnit = true := List.all_eq_true.1 components.inRange
  unfold value
  cases hvalue : components.named.lookup name with
  | none => exact Binary64.inUnit_zero
  | some x =>
    obtain ⟨front, back, hnamed, _⟩ := List.lookup_eq_some_iff.1 hvalue
    exact hall x (by simp [hnamed])

/-- Components that reach stricter minimums reach the minimums. -/
theorem reaches_of_tightens {strict config : Config} (h : strict.Tightens config) {components : Components}
    (hreaches : components.reaches strict.componentMinimums = true) : components.reaches config.componentMinimums = true := by
  unfold reaches at hreaches ⊢
  rw [List.all_eq_true] at hreaches ⊢
  intro m hm
  have hminimum := h.minimums m hm
  have hnot : ¬components.value m.1 < (strict.componentMinimums.lookup m.1).getD 0 := by
    cases hstrict : strict.componentMinimums.lookup m.1 with
    | none =>
      have hvalue := ((Binary64.inUnit_iff _).1 (components.inUnit_value m.1)).1
      rw [Option.getD_none, Binary64.lt_iff]
      rw [Binary64.le_iff] at hvalue
      omega
    | some x =>
      obtain ⟨front, back, hminimums, _⟩ := List.lookup_eq_some_iff.1 hstrict
      have hmem : (m.1, x) ∈ strict.componentMinimums := by simp [hminimums]
      simpa using hreaches (m.1, x) hmem
  have hle : ¬components.value m.1 < m.2 := by
    rw [Binary64.lt_iff] at hnot ⊢
    rw [Binary64.le_iff] at hminimum
    rintro ⟨hvalue, _, hlt⟩
    exact hnot ⟨hvalue, hminimum.2.1, by omega⟩
  simpa using hle

end Components

/-! ## Stricter contexts -/

section

variable {grid : Grid} {grammar : Grammar} {strict config : Config} (h : strict.Tightens config)

include h

/-- A stricter configuration finds the same confidences. -/
theorem Context.breakdown_of_tightens (s : Symbol) (p : Position) :
    (standard grid strict grammar).breakdown s p = (standard grid config grammar).breakdown s p := by
  unfold breakdown weights breakdownWith standard
  simp only [Scorer.standard, Scoring.standard, h.weights, h.staging]

/-- A position that is flagged is flagged under a stricter configuration. -/
theorem Survey.flagged_of_tightens {p : Position} {s : Symbol} {b : Breakdown}
    (hflagged : judged (.standard grid config grammar) p s b = .error p) : judged (.standard grid strict grammar) p s b = .error p := by
  have hthreshold := h.thresholds ((Context.standard grid config grammar).intentAt p) (Intents.classify_mem_all _ _ _)
  unfold judged at hflagged ⊢
  simp only at hflagged ⊢
  split at hflagged
  · cases hflagged
  · rename_i hshort
    rw [if_neg]
    rintro ⟨hpsi, hreaches⟩
    exact hshort ⟨Binary64.le_trans hthreshold hpsi, Components.reaches_of_tightens h hreaches⟩

namespace Resolution

/-- A reading that is refused is refused under a stricter configuration. -/
theorem rejection?_of_tightens {original intent : Intent} (hintent : intent ∈ Intent.all) {b : Breakdown}
    (hrefused : rejection? config grammar original intent b ≠ none) : rejection? strict grammar original intent b ≠ none := by
  have hthreshold := h.thresholds intent hintent
  unfold rejection? at hrefused ⊢
  by_cases hlow : b.psi < strict.threshold intent
  · simp [hlow]
  · have hlow' : ¬b.psi < config.threshold intent := by
      rw [Binary64.lt_iff] at hlow ⊢
      rw [Binary64.le_iff] at hthreshold
      rintro ⟨hpsi, _, hlt⟩
      exact hlow ⟨hpsi, hthreshold.2.1, by omega⟩
    rw [if_neg hlow'] at hrefused
    rw [if_neg hlow]
    cases hreaches : b.components.reaches strict.componentMinimums with
    | false => simp
    | true =>
      rw [Components.reaches_of_tightens h hreaches] at hrefused
      exact hrefused

/-- What is left to a person is left to a person under a stricter configuration. -/
theorem chosen_of_tightens {p : Position} {r r' : Resolution} (hr : outcome (.standard grid config grammar) p = .ok r)
    (hr' : outcome (.standard grid strict grammar) p = .ok r') (hreview : r.chosen = none) : r'.chosen = none := by
  obtain ⟨s, _, hs, _, hweighed⟩ := outcome_eq_ok hr
  obtain ⟨s', _, hs', _, hweighed'⟩ := outcome_eq_ok hr'
  cases hs.symm.trans hs'
  rw [Option.eq_none_iff_forall_ne_some]
  rintro ⟨t, b⟩ hchosen
  -- the reading that is chosen has been tried and refused under the other configuration
  obtain ⟨_, _, reading, hreadings, _, hb, hpasses, _⟩ := hweighed'.chosen (fun _ _ h => Context.settled_of_breakdown h) hchosen
  have hreading : reading ∈ (Context.standard grid strict grammar).readingsAt p s := by simp [hreadings]
  obtain ⟨b', hb', hrefused⟩ := hweighed.refused hreview reading hreading
  have hb := (Context.breakdown_of_tightens h _ p).symm.trans hb
  cases hb'.symm.trans hb
  exact rejection?_of_tightens h (Intents.classify_mem_all _ _ _) hrefused hpasses

end Resolution

namespace Survey

variable {p : Position} {d d' : Decision}

/-- A position that is accepted under a stricter configuration is accepted. -/
theorem accepted_of_tightens (hd : verdict (.standard grid config grammar) p = .ok d)
    (hd' : verdict (.standard grid strict grammar) p = .ok d') (haccepted : d'.status = .accepted) : d.status = .accepted := by
  obtain ⟨s, b, hs, hb, hj⟩ := verdict_eq_ok hd
  obtain ⟨s', b', hs', hb', hj'⟩ := verdict_eq_ok hd'
  cases hs.symm.trans hs'
  rw [Context.breakdown_of_tightens h] at hb'
  cases hb.symm.trans hb'
  rcases hj with ⟨_, hstatus⟩ | ⟨hflagged, _⟩
  · exact hstatus
  · rcases hj' with ⟨haccept, _⟩ | ⟨_, r, _, hstatus⟩
    · cases haccept.symm.trans (flagged_of_tightens h hflagged)
    · rw [hstatus, status_settle] at haccepted
      exact absurd haccepted (Resolution.status_ne_accepted r)

/-- A position that is left to a person is left to a person under a stricter configuration. -/
theorem review_of_tightens (hd : verdict (.standard grid config grammar) p = .ok d)
    (hd' : verdict (.standard grid strict grammar) p = .ok d') (hreview : d.status = .manualReview) :
    d'.status = .manualReview := by
  obtain ⟨s, b, hs, hb, hj⟩ := verdict_eq_ok hd
  obtain ⟨s', b', hs', hb', hj'⟩ := verdict_eq_ok hd'
  cases hs.symm.trans hs'
  rw [Context.breakdown_of_tightens h] at hb'
  cases hb.symm.trans hb'
  rcases hj with ⟨_, hstatus⟩ | ⟨hflagged, r, hr, hstatus⟩
  · cases hstatus.symm.trans hreview
  · rcases hj' with ⟨haccept, _⟩ | ⟨_, r', hr', hstatus'⟩
    · cases haccept.symm.trans (flagged_of_tightens h hflagged)
    · rw [hstatus, status_settle, Resolution.status_eq_manualReview_iff] at hreview
      rw [hstatus', status_settle, Resolution.status_eq_manualReview_iff]
      exact Resolution.chosen_of_tightens h hr hr' hreview

end Survey

end

/-! ## Two surveys -/

namespace Survey

/-- The decision is on a symbol that went to be resolved. -/
def wasFlagged (d : Decision) : Bool := decide (d.status = .resolved) || decide (d.status = .manualReview)

/-- A verdict without a deadline accepts, resolves or leaves to a person. -/
theorem wasFlagged_iff_of_verdict {c : Context} {p : Position} {d : Decision} (h : verdict c p = .ok d) :
    wasFlagged d = true ↔ d.status ≠ .accepted := by
  obtain ⟨s, b, _, _, hj⟩ := verdict_eq_ok h
  rcases hj with ⟨_, hstatus⟩ | ⟨_, r, _, hstatus⟩
  · simp [wasFlagged, hstatus]
  · unfold wasFlagged
    rw [hstatus, status_settle]
    unfold Resolution.status
    split <;> simp

/-- Surveys whose positions are the same have for each decision of the one a decision of the other. -/
theorem exists_decision {survey survey' : Survey} (h : survey.decisions.map (·.position) = survey'.decisions.map (·.position))
    {d : Decision} (hd : d ∈ survey.decisions) : ∃ d' ∈ survey'.decisions, d'.position = d.position := by
  have hposition : d.position ∈ survey'.decisions.map (·.position) := by
    rw [← h]
    exact List.mem_map_of_mem hd
  exact List.mem_map.1 hposition

/-- Where every flagged decision of one survey has a flagged one in its place in another, the other has flagged as many. -/
theorem flaggedCount_le {survey survey' : Survey} (hpositions : survey.decisions.map (·.position) = survey'.decisions.map (·.position))
    (h : ∀ d ∈ survey.decisions, ∀ d' ∈ survey'.decisions, d.position = d'.position → wasFlagged d = true → wasFlagged d' = true) :
    survey.flaggedCount ≤ survey'.flaggedCount := by
  have hcount : ∀ {ds ds' : List Decision}, ds.map (·.position) = ds'.map (·.position) →
      (∀ d ∈ ds, ∀ d' ∈ ds', d.position = d'.position → wasFlagged d = true → wasFlagged d' = true) →
      ds.countP wasFlagged ≤ ds'.countP wasFlagged := by
    intro ds
    induction ds with
    | nil => simp
    | cons d ds ih =>
      intro ds' hsame himp
      cases ds' with
      | nil => cases hsame
      | cons d' ds' =>
        obtain ⟨hposition, hrest⟩ := List.cons.inj hsame
        have hle := ih hrest fun e he e' he' => himp e (by simp [he]) e' (by simp [he'])
        have hfirst := himp d (by simp) d' (by simp) hposition
        rw [List.countP_cons, List.countP_cons]
        by_cases hd : wasFlagged d = true
        · rw [if_pos hd, if_pos (hfirst hd)]
          exact Nat.add_le_add_right hle 1
        · rw [if_neg hd]
          exact Nat.le_trans hle (Nat.le_add_right _ _)
  exact hcount hpositions h

open Session in
/-- Under a stricter configuration every accepted position is accepted without it, every position that was left to a person is still
left to one, and no fewer symbols are flagged, whatever has been evaluated on the grid before. -/
theorem run_tightens {grid : Grid} {records : List TokenRecord} {staged : Bool} {source : Grammar}
    (hgrid : Grid.organize records staged source = .ok grid) {config strict : Config} (hvalid : config.validate = .ok ())
    (hstrict : strict.validate = .ok ()) (h : strict.Tightens config) (grammar : Grammar) (before before' : List Step) :
    Concludes (.standard grid config grammar) (surveyAfter grid before config grammar) ∧
    Concludes (.standard grid strict grammar) (surveyAfter grid before' strict grammar) ∧
    ∀ lax tight, surveyAfter grid before config grammar = .ok lax → surveyAfter grid before' strict grammar = .ok tight →
      tight.StricterThan lax := by
  refine ⟨concludes_surveyAfter hgrid hvalid before grammar, concludes_surveyAfter hgrid hstrict before' grammar, ?_⟩
  intro lax tight hlax htight
  obtain ⟨hpositions, hverdict⟩ := positions_and_verdicts hgrid hvalid hlax
  obtain ⟨hpositions', hverdict'⟩ := positions_and_verdicts hgrid hstrict htight
  have hsame := hpositions.trans hpositions'.symm
  constructor
  · intro d hd haccepted
    obtain ⟨d', hd', hposition⟩ := exists_decision hsame.symm hd
    have hlaxed := hverdict d' hd'
    rw [hposition] at hlaxed
    exact ⟨d', hd', hposition, accepted_of_tightens h hlaxed (hverdict' d hd) haccepted⟩
  · intro d hd hreview
    obtain ⟨d', hd', hposition⟩ := exists_decision hsame hd
    have htightened := hverdict' d' hd'
    rw [hposition] at htightened
    exact ⟨d', hd', hposition, review_of_tightens h (hverdict d hd) htightened hreview⟩
  · apply flaggedCount_le hsame
    intro d hd d' hd' hposition hflagged
    have htightened := hverdict' d' hd'
    rw [wasFlagged_iff_of_verdict htightened]
    rw [wasFlagged_iff_of_verdict (hverdict d hd)] at hflagged
    rw [← hposition] at htightened
    exact fun haccepted => hflagged (accepted_of_tightens h (hverdict d hd) htightened haccepted)

/-- A higher general threshold, one of its own for assignments, and a minimum. -/
def strictConfig : Config :=
  { Config.default with thetaMin := 0.85, intentThresholds := [(.assign, 0.95)], componentMinimums := [("lexical", 0.5)] }

theorem strictConfig_tightens : strictConfig.validate = .ok () ∧ strictConfig.Tightens .default := by
  have hchecks : strictConfig.thetaMin.inUnit = true ∧
      strictConfig.intentThresholds.forM (Config.checkThreshold strictConfig.thetaMin) = .ok () ∧
      strictConfig.componentMinimums.forM Config.checkMinimum = .ok () ∧
      ∀ intent ∈ Intent.all, Config.default.threshold intent ≤ strictConfig.threshold intent := by
    decide +kernel
  obtain ⟨hthetaMin, hthresholds, hminimums, hall⟩ := hchecks
  have hdefault := Config.valid_of_validate Config.validate_default
  refine ⟨Config.validate_eq_ok_iff.2 ?_, rfl, rfl, hall, by simp [Config.default]⟩
  exact ⟨hdefault.applied, hthetaMin, hthresholds, hminimums, hdefault.tolerance, hdefault.workers⟩

open Session in
/-- The two surveys of a grid with two identifiers come to their ends, the second one with the table that the first one leaves. -/
theorem run_tightens_pair : strictConfig.Tightens .default ∧ ∃ lax tight,
    surveyAfter pairGrid [] .default .default = .ok lax ∧
    surveyAfter pairGrid [.survey .default .default] strictConfig .default = .ok tight ∧ tight.StricterThan lax := by
  obtain ⟨hstrict, htightens⟩ := strictConfig_tightens
  obtain ⟨hlax, htight, hcompare⟩ := run_tightens organize_pairRecords Config.validate_default hstrict htightens .default
    [] [.survey .default .default]
  obtain ⟨lax, hlax⟩ := hlax.exists_ok known_default
  obtain ⟨tight, htight⟩ := htight.exists_ok known_default
  exact ⟨htightens, lax, tight, hlax, htight, hcompare lax tight hlax htight⟩

end Survey

end TokenForest
