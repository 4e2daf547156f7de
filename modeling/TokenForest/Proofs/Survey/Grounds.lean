import TokenForest.Proofs.Evaluation.Credible
import TokenForest.Proofs.Resolution.Trials
import TokenForest.Proofs.Survey.Outcome

/-!
# What decisions rest on

A decision of a survey accepts the symbol of its cell with the confidence of the symbol, or settles a flagged one by a resolution that
starts from this confidence, or skips the cell. This holds of every scorer and every deadline: the steps of a survey keep a table
credible, and what they decide rests on what such a table answers.

A symbol is accepted only when its confidence reaches the threshold of its intent, and another reading is chosen only when its
confidence reaches the threshold of the intent that it has in the row; no threshold is below the general one. So every decision of a
survey that admits a symbol admits it with a settled confidence between the general threshold and 1.
-/

namespace TokenForest

namespace Resolution

open Evaluating

variable {c : Context} {p : Position} {s : Symbol}

/-- Trying a reading of the symbol in a cell tries it with a settled confidence. -/
theorem tryReading_keeps (hs : c.grid.symbolAt? p = some s) (r : Reading) :
    (tryReading c (c.grid.neighborhood p) (c.rowAt p) (c.indexAt p) (c.intentAt p) s r).Keeps c.Credible
      (fun t => ∃ b, b.psi.Settled ∧ t = trial c p s r b) := by
  rw [tryReading_eq p (Context.indexAt_lt hs)]
  apply Keeps.bind (P := fun alternative => alternative = reread s r)
  · exact Keeps.lift fun alternative h => Symbol.eq_of_check (ok_of_mapError h)
  · rintro _ rfl
    apply (Context.evaluate_credible_reread hs r).bind
    exact fun b hb => Keeps.pure ⟨b, hb, rfl⟩

/-- A resolution starts from the confidence of the symbol and tries the other readings with settled confidences. -/
theorem resolve_keeps (p : Position) : (resolve c p).Keeps c.Credible (fun r => ∃ s original, c.grid.symbolAt? p = some s ∧
    c.breakdown s p = .ok original ∧ Weighed c p s original (fun _ b => b.psi.Settled) r) := by
  rw [resolve_eq]
  apply Keeps.bind (P := fun s => c.grid.symbolAt? p = some s)
  · exact Keeps.lift fun s hs => Context.symbolAt?_of_symbolAt hs
  · intro s hs
    apply (Context.evaluate_credible_self hs).bind
    intro original horiginal
    apply (Keeps.mapM_forall₂ fun r _ => tryReading_keeps hs r).bind
    intro tries htries
    exact Keeps.pure ⟨s, original, hs, horiginal, weighed_of_forall₂ htries⟩

end Resolution

namespace Survey

open Evaluating

variable {c : Context} {p : Position} {s : Symbol} {b : Breakdown}

/-- What a decision rests on: the symbol of its cell with its confidence in its row, and for a flagged one a resolution. -/
inductive Grounded (c : Context) : Decision → Prop where
  | accepted {p : Position} {s : Symbol} {b : Breakdown} (hs : c.grid.symbolAt? p = some s) (hb : c.breakdown s p = .ok b)
      {d : Decision} (hjudged : judged c p s b = .ok d) : Grounded c d
  | settled {p : Position} {s : Symbol} {b : Breakdown} (hs : c.grid.symbolAt? p = some s) (hb : c.breakdown s p = .ok b)
      (hflagged : judged c p s b = .error p) {r : Resolution}
      (hr : Resolution.Weighed c p s b (fun _ b => b.psi.Settled) r) : Grounded c (settle c p s b r)
  | skipped {p : Position} {s : Symbol} (hs : c.grid.symbolAt? p = some s) (psi : Binary64) : Grounded c (Decision.skip p s psi)

/-- The symbol at a position does not reach what its intent asks for. -/
def Flagged (c : Context) (p : Position) : Prop :=
  ∃ s b, c.grid.symbolAt? p = some s ∧ c.breakdown s p = .ok b ∧ judged c p s b = .error p

/-- Judging a symbol in its row appraises its position. -/
theorem judge_keeps (hs : c.grid.symbolAt? p = some s) :
    (judge c (c.rowAt p) (c.indexAt p, p, s)).Keeps c.Credible (fun j => appraise c p = .ok j) := by
  have heq : judge c (c.rowAt p) (c.indexAt p, p, s) = c.evaluate s p >>= fun b => Pure.pure (b.psi, judged c p s b) := by
    rw [judge_eq_of_lt (Context.indexAt_lt hs)]
    unfold judged Context.intentAt
    simp only
    congr
    funext b
    split <;> rfl
  rw [heq]
  apply (Context.evaluate_credible_self hs).bind
  intro b hb
  apply Keeps.pure
  unfold appraise
  rw [Context.symbolAt_eq_ok hs, ok_bind, hb]
  rfl

/-- A row that is scanned in time has its scan, one that is not is left unscanned. -/
theorem surveyRow_scans (hnodup : c.grid.positions.Nodup) (expired : Bool) (unit : Lane × Nat) : (surveyRow c expired unit).Keeps
    c.Credible (fun s => s = unscanned unit.1 unit.2 (rowCells c.grid unit.1 unit.2) ∨ scan c unit = .ok s) := by
  rw [surveyRow_eq]
  simp only
  split
  · exact Keeps.pure (Or.inl rfl)
  · have hjudge : ∀ entry ∈ (rowCells c.grid unit.1 unit.2).zipIdx.map (fun e => (e.2, e.1)),
        (judge c ((rowCells c.grid unit.1 unit.2).map (·.2)) entry).Keeps c.Credible (fun j => appraise c entry.2.1 = .ok j) := by
      intro entry hentry
      obtain ⟨p, _, hmem, hposition, hindex, hs⟩ := exists_of_forall₂ (forall₂_rowCells hnodup unit).flip hentry
      obtain ⟨_, hlane, hrow⟩ := Grid.mem_rowPositions.1 hmem
      rw [← hlane, ← hrow] at hindex ⊢
      rw [map_snd_rowCells]
      obtain ⟨index, q, s⟩ := entry
      simp only at hposition hindex hs
      rw [hposition, hindex]
      exact judge_keeps hs
    apply (Keeps.mapM_forall₂ hjudge).bind
    intro judged hjudged
    have hrow : List.Forall₂ (fun p j => appraise c p = .ok j) (c.grid.rowPositions unit.1 unit.2) judged := by
      rw [← map_rowCells c.grid unit.1 unit.2, ← map_position_zipIdx]
      exact List.forall₂_map_left_iff.2 hjudged
    apply Keeps.pure
    right
    unfold scan scanBy
    rw [mapM_of_forall₂ hrow]
    rfl

/-- What an appraisal accepts rests on its grounds, and what it does not accept is flagged. -/
theorem grounded_of_appraise {j : Binary64 × Except Position Decision} (h : appraise c p = .ok j) :
    (∀ d, j.2 = .ok d → Grounded c d) ∧ ∀ q, j.2 = .error q → Flagged c q := by
  obtain ⟨s, hs, h⟩ := ok_of_bind h
  obtain ⟨b, hb, h⟩ := ok_of_bind h
  cases h
  have hs := Context.symbolAt?_of_symbolAt hs
  refine ⟨fun d hd => .accepted hs hb hd, fun q hq => ?_⟩
  obtain ⟨rfl, _⟩ := judged_eq_error_iff.1 hq
  exact ⟨s, b, hs, hb, hq⟩

/-- The scan of a row accepts symbols on their grounds and flags the others. -/
theorem grounded_of_scan {unit : Lane × Nat} {s : RowSurvey} (h : scan c unit = .ok s) :
    (∀ d ∈ s.decisions, Grounded c d) ∧ ∀ p ∈ s.flagged, Flagged c p := by
  obtain ⟨judged, hjudged, h⟩ := ok_of_bind h
  cases h
  have hrow := forall₂_of_mapM hjudged
  refine ⟨fun d hd => ?_, fun p hp => ?_⟩
  · obtain ⟨j, hj, hjd⟩ := mem_accepted.1 hd
    obtain ⟨q, _, hq⟩ := exists_of_forall₂ hrow hj
    exact (grounded_of_appraise hq).1 d hjd
  · obtain ⟨j, hj, hjp⟩ := mem_flagged.1 hp
    obtain ⟨q, _, hq⟩ := exists_of_forall₂ hrow hj
    exact (grounded_of_appraise hq).2 p hjp

/-- A row is scanned by judging its symbols, or its symbols are skipped. -/
theorem surveyRow_keeps (hnodup : c.grid.positions.Nodup) (expired : Bool) (unit : Lane × Nat) :
    (surveyRow c expired unit).Keeps c.Credible
      (fun scan => (∀ d ∈ scan.decisions, Grounded c d) ∧ ∀ p ∈ scan.flagged, Flagged c p) := by
  apply (surveyRow_scans hnodup expired unit).mono
  rintro _ (rfl | hscan)
  · refine ⟨fun d hd => ?_, by simp [unscanned]⟩
    obtain ⟨cell, hcell, rfl⟩ := List.mem_map.1 hd
    exact .skipped (symbolAt?_of_mem_rowCells hcell) 0
  · exact grounded_of_scan hscan

/-- A flagged position is settled by its resolution, or it is skipped. -/
theorem resolvePosition_keeps (expired : Bool) (hp : Flagged c p) :
    (resolvePosition c expired p).Keeps c.Credible (Grounded c) := by
  obtain ⟨s, b, hs, hb, hflagged⟩ := hp
  unfold resolvePosition
  rw [Context.symbolAt_eq_ok hs]
  apply Keeps.bind (P := fun s' => s' = s)
  · apply Keeps.lift
    intro s' hs'
    cases hs'
    rfl
  · rintro _ rfl
    apply (Context.evaluate_credible_self hs).bind
    intro original horiginal
    cases hb.symm.trans horiginal
    split
    · exact Keeps.pure (.skipped hs _)
    · apply (Resolution.resolve_keeps p).bind
      rintro r ⟨s', b', hs', hb', hr⟩
      cases hs.symm.trans hs'
      cases hb.symm.trans hb'
      exact Keeps.pure (.settled hs hb hflagged hr)

/-- Every decision of a survey rests on its grounds, whatever the scorer and the deadline are. -/
theorem run_keeps (hnodup : c.grid.positions.Nodup) (deadline : Deadline) : (run c deadline).Keeps c.Credible
    (fun survey => c.config.validate = .ok () ∧ ∀ d ∈ survey.decisions, Grounded c d) := by
  rw [run_eq]
  apply Keeps.bind (P := fun _ => c.config.validate = .ok ())
  · exact Keeps.lift fun _ h => ok_of_mapError h
  · intro _ hvalid
    apply (Keeps.runAll fun e _ => surveyRow_keeps hnodup (deadline e.1) e.2).bind
    intro scans hscanned
    have hrows : ∀ e ∈ numbered (units c.grid).length (pending scans),
        (settleRow c (deadline e.1) e.2.flagged).Keeps c.Credible (fun ds => ∀ d ∈ ds, Grounded c d) := by
      intro e he
      have hscan := mem_of_mem_pending (snd_mem_of_mem_numbered he)
      exact Keeps.mapM fun p hp => resolvePosition_keeps _ ((hscanned _ hscan.1).2 p hp)
    apply (Keeps.runAll hrows).bind
    intro resolved hresolved
    simp only
    split
    · apply Keeps.lift
      intro survey hsurvey
      cases hsurvey
    · refine Keeps.pure ⟨hvalid, fun d hd => ?_⟩
      rcases List.mem_append.1 ((List.mergeSort_perm _ _).mem_iff.1 hd) with hmem | hmem
      · obtain ⟨scan, hscan, hmem⟩ := List.mem_flatMap.1 hmem
        exact (hscanned scan hscan).1 d hmem
      · obtain ⟨ds, hds, hmem⟩ := List.mem_flatten.1 hmem
        exact hresolved ds hds d hmem

end Survey

/-- The confidence is settled and reaches the general threshold. -/
def Sure (config : Config) (psi : Binary64) : Prop := psi.Settled ∧ config.thetaMin ≤ psi

/-- Rounding leaves a sure confidence alone. -/
theorem Sure.roundSix {config : Config} {psi : Binary64} (h : Sure config psi) : Sure config psi.roundSix := by
  rw [h.1.2]
  exact h

/-- A settled confidence that reaches the threshold of an intent is sure. -/
theorem sure_of_threshold_le {config : Config} {intent : Intent} {psi : Binary64} (htheta : config.thetaMin ≠ .nan)
    (hsettled : psi.Settled) (h : config.threshold intent ≤ psi) : Sure config psi :=
  ⟨hsettled, Binary64.le_trans (Config.thetaMin_le_threshold htheta intent) h⟩

namespace Survey

variable {c : Context} {d : Decision}

/-- A symbol that the decision admits is sure. -/
def SureIfAdmitted (config : Config) (d : Decision) : Prop := d.status.isAdmitted = true → Sure config d.finalPsi

/-- A decision that rests on its grounds admits only what is sure. -/
theorem Grounded.sure (htheta : c.config.thetaMin ≠ .nan) (h : Grounded c d) : SureIfAdmitted c.config d := by
  intro hadmitted
  cases h with
  | accepted hs hb hjudged =>
    obtain ⟨hreached, _, rfl⟩ := judged_eq_ok_iff.1 hjudged
    exact sure_of_threshold_le htheta (Context.settled_of_breakdown hb) hreached
  | settled hs hb hflagged hr =>
    unfold settle at hadmitted ⊢
    split at hadmitted
    · rename_i t final hchosen
      obtain ⟨_, _, reading, _, _, hsettled, hpasses, _⟩ := hr.chosen (fun _ _ h => h) hchosen
      exact sure_of_threshold_le htheta hsettled ((Resolution.passes_iff hsettled htheta).1 hpasses).1
    · cases hadmitted
  | skipped hs psi => cases hadmitted

/-- Every symbol that a survey admits is sure, whatever the scorer and the deadline are. -/
theorem run_sure (hnodup : c.grid.positions.Nodup) {deadline : Deadline} {survey : Survey}
    (h : ((run c deadline).run.run .empty).1 = .ok survey) : ∀ d ∈ survey.decisions, SureIfAdmitted c.config d := by
  obtain ⟨hvalid, hgrounded⟩ := (run_keeps hnodup deadline _ Context.credible_empty).2 survey h
  exact fun d hd => (hgrounded d hd).sure (Config.thetaMin_ne_nan hvalid)

end Survey

end TokenForest
