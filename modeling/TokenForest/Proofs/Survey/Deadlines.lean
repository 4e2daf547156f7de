import TokenForest.Proofs.Confidence.Scoring
import TokenForest.Proofs.Survey.Answers
import TokenForest.Survey.Outcomes

/-!
# Surveys under a deadline

A deadline that expires after some checks leaves a front of the rows to be scanned and, when all rows have been, a front of the rows
with flagged positions to be resolved. Up to there the survey runs as without a deadline, from the same table to the same table. What
comes after is not processed: a row that was not scanned has no confidences, and a flagged position has the confidence that its scan
has stored, which is the one that the survey without a deadline reports.
-/

namespace TokenForest

namespace Survey

open Evaluating

variable {α β : Type} {c : Context} {memo memo' memo'' : Memo}

/-! ## Checks of the deadline -/

theorem numbered_cons (start : Nat) (unit : α) (units : List α) :
    numbered start (unit :: units) = (start, unit) :: numbered (start + 1) units := by
  unfold numbered
  rw [List.zipIdx_cons', List.map_cons, List.map_map]
  congr 1
  apply List.map_congr_left
  intro e _
  change (start + (e.2 + 1), e.1) = (start + 1 + e.2, e.1)
  rw [Nat.add_assoc, Nat.add_comm 1 e.2]

/-- Without a deadline the units run as they are. -/
theorem steps_never {f : Bool → α → Evaluating β} {units : List α} {bs : List β} {start : Nat} :
    Steps (fun e => f (Deadline.never e.1) e.2) (numbered start units) memo bs memo' ↔ Steps (f false) units memo bs memo' := by
  have hunits : Steps (f false) ((numbered start units).map (·.2)) memo bs memo' ↔
      Steps (fun e => f (Deadline.never e.1) e.2) (numbered start units) memo bs memo' := Steps.map_iff
  rw [map_snd_numbered] at hunits
  exact hunits.symm

/-- Units run in time as long as there are checks before the deadline, and late after that. -/
theorem steps_after {f : Bool → α → Evaluating β} {units : List α} {bs bs' : List β} {checks start : Nat}
    (hintime : Steps (f false) (units.take (checks - start)) memo bs memo')
    (hlate : Steps (f true) (units.drop (checks - start)) memo' bs' memo'') :
    Steps (fun e => f (Deadline.after checks e.1) e.2) (numbered start units) memo (bs ++ bs') memo'' := by
  induction units generalizing start memo memo' bs bs' with
  | nil =>
    rw [List.take_nil] at hintime
    rw [List.drop_nil] at hlate
    obtain ⟨rfl, rfl⟩ := hintime.eq_of_nil
    obtain ⟨rfl, rfl⟩ := hlate.eq_of_nil
    exact .nil _
  | cons unit units ih =>
    rw [numbered_cons]
    by_cases hstart : start < checks
    · have hnext : checks - start = checks - (start + 1) + 1 := by omega
      rw [hnext, List.take_succ_cons] at hintime
      rw [hnext, List.drop_succ_cons] at hlate
      cases hintime with
      | cons hrun hrest =>
        have htime : Deadline.after checks start = false := by
          simp [Deadline.after]
          omega
        refine .cons ?_ (ih hrest hlate)
        rw [htime]
        exact hrun
    · have hzero : checks - start = 0 := by omega
      have hnext : checks - (start + 1) = 0 := by omega
      rw [hzero, List.take_zero] at hintime
      rw [hzero, List.drop_zero] at hlate
      obtain ⟨rfl, rfl⟩ := hintime.eq_of_nil
      cases hlate with
      | @cons _ _ b bs _ middle _ hrun hrest =>
        have htime : Deadline.after checks start = true := by
          simp [Deadline.after]
          omega
        have hlater : Steps (fun e => f (Deadline.after checks e.1) e.2) (numbered (start + 1) units) middle ([] ++ bs) memo'' := by
          apply ih
          · rw [hnext, List.take_zero]
            exact .nil middle
          · rw [hnext, List.drop_zero]
            exact hrest
        refine .cons ?_ hlater
        rw [htime]
        exact hrun

/-! ## Units of a grid -/

theorem nodup_units (grid : Grid) : (units grid).Nodup := by
  unfold units
  rw [List.nodup_flatMap]
  constructor
  · intro lane _
    apply List.Nodup.map
    · intro r r' hr
      exact (Prod.mk.inj hr).2
    · exact Grouping.nodup_eraseDups _
  · have hlanes : grid.lanes.Nodup := Grouping.nodup_eraseDups _
    apply hlanes.imp
    intro lane lane' hne unit hunit hunit'
    obtain ⟨r, _, rfl⟩ := List.mem_map.1 hunit
    obtain ⟨r', _, heq⟩ := List.mem_map.1 hunit'
    exact hne (Prod.mk.inj heq).1.symm

/-- The row scan of a unit after the deadline. -/
def lateScan (c : Context) (unit : Lane × Nat) : RowSurvey := unscanned unit.1 unit.2 (rowCells c.grid unit.1 unit.2)

theorem runs_lateScan (c : Context) (unit : Lane × Nat) (memo : Memo) :
    (surveyRow c true unit).Runs memo (lateScan c unit) memo := by
  rw [surveyRow_eq]
  exact Runs.pure memo _

theorem steps_lateScan (c : Context) (rows : List (Lane × Nat)) (memo : Memo) :
    Steps (surveyRow c true) rows memo (rows.map (lateScan c)) memo := by
  induction rows with
  | nil => exact .nil memo
  | cons unit rows ih => exact .cons (runs_lateScan c unit memo) ih

/-! ## What a deadline leaves -/

/-- What a survey without a deadline decides on in the time of some checks: by scanning rows, and by then resolving. -/
def decidedWithin (scans : List RowSurvey) (resolved : List (List Decision)) (rows checks : Nat) : List Decision :=
  (scans.take checks).flatMap (·.decisions) ++ (resolved.take (checks - rows)).flatten

/-- A position that is left over when the deadline expires after some checks: its row was not scanned, or its confidence is the
known one. -/
inductive LeftOver (c : Context) (known : Memo) (checks : Nat) (d : Decision) : Prop where
  | unscanned (hstatus : d.status = .notProcessed) (hrow : ¬InTime c.grid checks d.position) (hpsi : d.psi = 0)
  | unresolved (hstatus : d.status = .notProcessed) (hrow : InTime c.grid checks d.position)
      (hpsi : c.Knows known d.position d.psi)

theorem LeftOver.notProcessed {known : Memo} {checks : Nat} {d : Decision} (h : LeftOver c known checks d) :
    d.status = .notProcessed := by
  cases h with
  | unscanned hstatus => exact hstatus
  | unresolved hstatus => exact hstatus

/-- A row that is scanned late is left over. -/
theorem leftOver_lateScan {known : Memo} {checks : Nat} {unit : Lane × Nat} {d : Decision}
    (hunit : unit ∈ (units c.grid).drop checks) (hd : d ∈ (lateScan c unit).decisions) : LeftOver c known checks d := by
  have hunitd := (unit_of_scan (runs_lateScan c unit known).produces (Or.inl (List.mem_map_of_mem hd))).2
  obtain ⟨cell, _, rfl⟩ := List.mem_map.1 hd
  refine .unscanned rfl ?_ rfl
  unfold InTime
  rw [hunitd]
  intro htake
  exact List.disjoint_take_drop (nodup_units c.grid) (Nat.le_refl checks) htake hunit

/-- Scans in time only add to the table, and what they find is known ever after. -/
theorem steps_scanned (h : c.Sound) {rows : List (Lane × Nat)} {scans : List RowSurvey}
    (hscan : Steps (surveyRow c false) rows memo scans memo') :
    memo.Extends memo' ∧ ∀ later, memo'.Extends later → ∀ scan ∈ scans, Scanned c later scan := by
  obtain ⟨hextends, hall⟩ := hscan.answers (E := c.Misread) fun unit _ => surveyRow_answers h false unit
  refine ⟨hextends, ?_⟩
  intro later hlater scan hmem
  obtain ⟨_, _, hscanned⟩ := exists_of_forall₂ (hall later hlater) hmem
  exact hscanned rfl

/-- Resolving the flagged positions of scans only adds to the table; each decision is on one of them and reports its confidence. -/
theorem steps_settled (h : c.Sound) {expired : Bool} {ps : List RowSurvey} {resolved : List (List Decision)}
    (hps : ∀ scan ∈ ps, ∀ p ∈ scan.flagged, p ∈ c.grid.positions)
    (hsettle : Steps (fun s => settleRow c expired s.flagged) ps memo resolved memo') :
    memo.Extends memo' ∧ ∀ d ∈ resolved.flatten, (∃ scan ∈ ps, d.position ∈ scan.flagged) ∧
      c.Knows memo' d.position d.psi ∧ (d.status = .notProcessed ↔ expired = true) := by
  obtain ⟨hextends, hall⟩ := hsettle.answers fun scan hmem =>
    settleRow_answers (E := c.Misread) h (fun _ => rfl) (hps scan hmem)
  refine ⟨hextends, ?_⟩
  intro d hd
  obtain ⟨ds, hds, hd⟩ := List.mem_flatten.1 hd
  obtain ⟨scan, hmem, hsettled⟩ := exists_of_forall₂ (hall memo' (MemoTable.Extends.refl memo')) hds
  obtain ⟨hflagged, hknown, hstatus⟩ := hsettled d hd
  exact ⟨⟨scan, hmem, hflagged⟩, hknown, hstatus⟩

section

variable {scans : List RowSurvey} {resolved : List (List Decision)} (h : c.Sound)
  (hscan : Steps (surveyRow c false) (units c.grid) memo scans memo')
  (hsettle : Steps (fun s => settleRow c false s.flagged) (pending scans) memo' resolved memo'')

include hscan in
/-- The positions that scans have flagged are positions of the grid, in a row that was scanned. -/
theorem flagged_of_scans {checks : Nat} {scan : RowSurvey} (hmem : scan ∈ scans.take checks) {p : Position}
    (hp : p ∈ scan.flagged) : p ∈ c.grid.positions ∧ InTime c.grid checks p := by
  obtain ⟨middle, hfront, _⟩ := hscan.split checks
  obtain ⟨unit, hunit, hproduces⟩ := exists_of_forall₂ hfront.produces hmem
  obtain ⟨hposition, heq⟩ := unit_of_scan hproduces (Or.inr hp)
  refine ⟨hposition, ?_⟩
  unfold InTime
  rw [heq]
  exact hunit

include hscan in
theorem flagged_of_pending {scan : RowSurvey} (hmem : scan ∈ pending scans) {p : Position} (hp : p ∈ scan.flagged) :
    p ∈ c.grid.positions := by
  have htake : scan ∈ scans.take scans.length := by simpa using (mem_of_mem_pending hmem).1
  exact (flagged_of_scans hscan htake hp).1

include hscan in
/-- Only scans in time have flagged positions. -/
theorem pending_of_cut {checks : Nat} {scan : RowSurvey}
    (hmem : scan ∈ pending (scans.take checks ++ ((units c.grid).drop checks).map (lateScan c))) :
    scan ∈ scans.take checks ∧ ∀ p ∈ scan.flagged, p ∈ c.grid.positions := by
  obtain ⟨hmem, hflagged⟩ := mem_of_mem_pending hmem
  rcases List.mem_append.1 hmem with hmem | hmem
  · exact ⟨hmem, fun p hp => (flagged_of_scans hscan hmem hp).1⟩
  · obtain ⟨unit, _, rfl⟩ := List.mem_map.1 hmem
    exact absurd rfl hflagged

include h hscan hsettle in
/-- What a survey without a deadline decides is processed, and reports known confidences. -/
theorem known_of_full {d : Decision} (hd : d ∈ scans.flatMap (·.decisions) ++ resolved.flatten) :
    d.status ≠ .notProcessed ∧ c.Knows memo'' d.position d.psi := by
  obtain ⟨hextends, hsettled⟩ := steps_settled h (fun scan hmem p hp => flagged_of_pending hscan hmem hp) hsettle
  rcases List.mem_append.1 hd with hd | hd
  · obtain ⟨scan, hmem, hd⟩ := List.mem_flatMap.1 hd
    obtain ⟨hstatus, hknown⟩ := ((steps_scanned h hscan).2 memo'' hextends scan hmem).1 d hd
    refine ⟨?_, hknown⟩
    rw [hstatus]
    decide
  · obtain ⟨_, hknown, hstatus⟩ := hsettled d hd
    exact ⟨by simpa using hstatus, hknown⟩

include hscan hsettle in
/-- The scans that a deadline leaves time to resolve are resolved as without a deadline. -/
theorem exists_settled {checks : Nat} {middle : Memo} (hfront : Steps (surveyRow c false) ((units c.grid).take checks) memo
    (scans.take checks) middle) :
    ∃ last, Steps (fun s => settleRow c false s.flagged) ((pending (scans.take checks ++
      ((units c.grid).drop checks).map (lateScan c))).take (checks - (units c.grid).length)) middle
      (resolved.take (checks - (units c.grid).length)) last := by
  by_cases hchecks : (units c.grid).length ≤ checks
  · -- all rows have been scanned in time, so what waits is what waits without a deadline
    have hlength : scans.length ≤ checks := by
      rw [← hscan.produces.length_eq]
      exact hchecks
    rw [List.take_of_length_le hchecks, List.take_of_length_le hlength] at hfront
    rw [List.drop_eq_nil_of_le hchecks, List.map_nil, List.append_nil, List.take_of_length_le hlength]
    obtain ⟨last, hsettled, _⟩ := hsettle.split (checks - (units c.grid).length)
    obtain ⟨_, rfl⟩ := hfront.unique hscan
    exact ⟨last, hsettled⟩
  · have hzero : checks - (units c.grid).length = 0 := by omega
    rw [hzero, List.take_zero, List.take_zero]
    exact ⟨middle, .nil middle⟩

include h hscan hsettle in
/-- A flagged position that is not resolved in time is left over with the confidence that its scan has stored. -/
theorem leftOver_of_late {checks : Nat} {middle last final : Memo} {ps : List RowSurvey} {late : List (List Decision)}
    (hfront : Steps (surveyRow c false) ((units c.grid).take checks) memo (scans.take checks) middle)
    (hps : ∀ scan ∈ ps, scan ∈ scans.take checks ∧ ∀ p ∈ scan.flagged, p ∈ c.grid.positions) (hmiddle : middle.Extends last)
    (hlate : Steps (fun s => settleRow c true s.flagged) ps last late final) {d : Decision} (hd : d ∈ late.flatten) :
    LeftOver c memo'' checks d := by
  obtain ⟨hlast, hsettled⟩ := steps_settled h (fun scan hmem => (hps scan hmem).2) hlate
  obtain ⟨⟨scan, hmem, hflagged⟩, hknown, hstatus⟩ := hsettled d hd
  obtain ⟨htake, _⟩ := hps scan hmem
  -- the scan has stored a confidence, which is the one found here and in the survey without a deadline
  have hscanned := (steps_scanned h hfront).2 middle (MemoTable.Extends.refl middle) scan htake
  obtain ⟨psi, hpsi⟩ := hscanned.2 d.position hflagged
  obtain rfl := (hpsi.mono (hmiddle.trans hlast)).unique hknown
  have hfull : middle.Extends memo'' := by
    obtain ⟨middle', hfront', hback⟩ := hscan.split checks
    obtain ⟨_, rfl⟩ := hfront.unique hfront'
    apply (steps_scanned h hback).1.trans
    exact (steps_settled h (fun scan hmem p hp => flagged_of_pending hscan hmem hp) hsettle).1
  exact .unresolved (hstatus.2 rfl) (flagged_of_scans hscan htake hflagged).2 (hpsi.mono hfull)

include h hscan hsettle in
/-- A survey under a deadline decides as the survey without one what that decides in the same time; the rest is left over. -/
theorem exists_run_after (checks : Nat) : ∃ survey final, (run c (.after checks)).Runs memo survey final ∧
    survey.decisions.map (·.position) = c.grid.positions ∧ ∃ left : List Decision,
      survey.decisions.Perm (decidedWithin scans resolved (units c.grid).length checks ++ left) ∧
      ∀ d ∈ left, LeftOver c memo'' checks d := by
  obtain ⟨middle, hfront, _⟩ := hscan.split checks
  have hlatescans := steps_lateScan c ((units c.grid).drop checks) middle
  obtain ⟨last, hintime⟩ := exists_settled hscan hsettle hfront
  have hpending : ∀ scan ∈ pending (scans.take checks ++ ((units c.grid).drop checks).map (lateScan c)),
      scan ∈ scans.take checks ∧ ∀ p ∈ scan.flagged, p ∈ c.grid.positions := fun scan => pending_of_cut hscan
  obtain ⟨hmiddle, _⟩ := steps_settled h (fun scan hmem => (hpending scan (List.mem_of_mem_take hmem)).2) hintime
  obtain ⟨late, final, hlate⟩ := Answers.exists_steps (f := fun scan : RowSurvey => settleRow c true scan.flagged)
    (fun scan hmem => settleRow_answers h (by simp) (hpending scan (List.mem_of_mem_drop hmem)).2) last
  have hscans : Steps (fun e => surveyRow c (Deadline.after checks e.1) e.2) (numbered 0 (units c.grid)) memo
      (scans.take checks ++ ((units c.grid).drop checks).map (lateScan c)) middle := steps_after hfront hlatescans
  have hsettled := steps_after (f := fun expired (scan : RowSurvey) => settleRow c expired scan.flagged) hintime hlate
  obtain ⟨survey, hrun, hperm, hpositions⟩ := run_of_steps h hscans hsettled
  refine ⟨survey, final, hrun, hpositions, (((units c.grid).drop checks).map (lateScan c)).flatMap (·.decisions) ++ late.flatten,
    ?_, ?_⟩
  · apply hperm.trans
    unfold decidedWithin
    rw [List.flatMap_append, List.flatten_append, List.append_assoc, List.append_assoc]
    apply List.Perm.append_left
    rw [← List.append_assoc, ← List.append_assoc]
    exact List.perm_append_comm.append_right _
  · intro d hd
    rcases List.mem_append.1 hd with hd | hd
    · obtain ⟨scan, hmem, hd⟩ := List.mem_flatMap.1 hd
      obtain ⟨unit, hunit, rfl⟩ := List.mem_map.1 hmem
      exact leftOver_lateScan hunit hd
    · exact leftOver_of_late h hscan hsettle hfront (fun scan hmem => hpending scan (List.mem_of_mem_drop hmem)) hmiddle hlate hd

end

/-! ## Under a deadline and without one -/

theorem mem_decidedWithin_mono {scans : List RowSurvey} {resolved : List (List Decision)} {rows n m : Nat} (hnm : n ≤ m)
    {d : Decision} (hd : d ∈ decidedWithin scans resolved rows n) : d ∈ decidedWithin scans resolved rows m := by
  unfold decidedWithin at hd ⊢
  rcases List.mem_append.1 hd with hd | hd
  · obtain ⟨scan, hmem, hd⟩ := List.mem_flatMap.1 hd
    apply List.mem_append_left
    exact List.mem_flatMap.2 ⟨scan, (List.take_prefix_take_left hnm).subset hmem, hd⟩
  · obtain ⟨ds, hmem, hd⟩ := List.mem_flatten.1 hd
    apply List.mem_append_right
    exact List.mem_flatten.2 ⟨ds, (List.take_prefix_take_left (Nat.sub_le_sub_right hnm rows)).subset hmem, hd⟩

/-- What is decided within some checks is decided without a deadline. -/
theorem mem_of_mem_decidedWithin {scans : List RowSurvey} {resolved : List (List Decision)} {rows checks : Nat}
    {d : Decision} (hd : d ∈ decidedWithin scans resolved rows checks) : d ∈ scans.flatMap (·.decisions) ++ resolved.flatten := by
  have hlater := mem_decidedWithin_mono (Nat.le_add_right checks (scans.length + (resolved.length + rows))) hd
  unfold decidedWithin at hlater
  rw [List.take_of_length_le (by omega), List.take_of_length_le (by omega)] at hlater
  exact hlater

section

variable {scans : List RowSurvey} {resolved : List (List Decision)} {full survey : Survey} {checks : Nat}
  {left : List Decision} (h : c.Sound) (hscan : Steps (surveyRow c false) (units c.grid) memo scans memo')
  (hsettle : Steps (fun s => settleRow c false s.flagged) (pending scans) memo' resolved memo'')

include h hscan hsettle in
/-- What is decided in time and what is left over make the survey without a deadline cut short. -/
theorem cutShort_of_perm (hfull : full.decisions.Perm (scans.flatMap (·.decisions) ++ resolved.flatten))
    (hpositions : full.decisions.map (·.position) = c.grid.positions)
    (hsame : survey.decisions.map (·.position) = c.grid.positions)
    (hperm : survey.decisions.Perm (decidedWithin scans resolved (units c.grid).length checks ++ left))
    (hleft : ∀ d ∈ left, LeftOver c memo'' checks d) : CutShort c checks full survey := by
  refine ⟨hsame, ?_, ?_⟩
  · intro d hd
    rcases List.mem_append.1 (hperm.mem_iff.1 hd) with hdecided | hover
    · exact ⟨d, hfull.mem_iff.2 (mem_of_mem_decidedWithin hdecided), rfl, .same rfl⟩
    · have hp : d.position ∈ full.decisions.map (·.position) := by
        rw [hpositions, ← hsame]
        exact List.mem_map_of_mem hd
      obtain ⟨d', hd', hposition⟩ := List.mem_map.1 hp
      refine ⟨d', hd', hposition, ?_⟩
      cases hleft d hover with
      | unscanned hstatus hrow hpsi => exact .unscanned hstatus hrow hpsi
      | unresolved hstatus hrow hpsi =>
        have hknown := (known_of_full h hscan hsettle (hfull.mem_iff.1 hd')).2
        rw [hposition] at hknown
        exact .unresolved hstatus hrow (hpsi.unique hknown)
  · unfold deadlineExpired
    rw [List.any_eq_true]
    simp only [decide_eq_true_eq]

include h in
/-- A position that is left over is left over under an earlier deadline, too. -/
theorem unprocessed_anti {n m : Nat} {early late : Survey} {left left' : List Decision} (hnm : n ≤ m)
    (hpositions : late.decisions.map (·.position) = c.grid.positions)
    (hsame : early.decisions.map (·.position) = c.grid.positions)
    (hperm : late.decisions.Perm (decidedWithin scans resolved (units c.grid).length m ++ left))
    (hperm' : early.decisions.Perm (decidedWithin scans resolved (units c.grid).length n ++ left'))
    (hleft' : ∀ d ∈ left', LeftOver c memo'' n d) {p : Position} (hp : Unprocessed late p) : Unprocessed early p := by
  obtain ⟨d, hd, rfl, hstatus⟩ := hp
  have hposition : d.position ∈ early.decisions.map (·.position) := by
    rw [hsame, ← hpositions]
    exact List.mem_map_of_mem hd
  obtain ⟨e, he, heq⟩ := List.mem_map.1 hposition
  refine ⟨e, he, heq, ?_⟩
  rcases List.mem_append.1 (hperm'.mem_iff.1 he) with hdecided | hover
  · -- what is decided within fewer checks is decided within more, so the two decisions are the same
    have helate : e ∈ late.decisions := hperm.mem_iff.2 (List.mem_append_left _ (mem_decidedWithin_mono hnm hdecided))
    have hnodup : (late.decisions.map (·.position)).Nodup := by
      rw [hpositions]
      exact h.nodup
    rw [List.inj_on_of_nodup_map hnodup helate hd heq]
    exact hstatus
  · exact (hleft' e hover).notProcessed

end

/-- A survey comes to an end under every deadline with the positions of the grid in order, unless a reading of the grammar has a hint
that is not on the list. Where the survey without a deadline comes to an end, so does every survey whose deadline expires after
some checks: it has the same decisions or leaves them out, it tells that the deadline has expired just when one is left out, and with
more checks none is left out that was not left out before. -/
theorem run_cutShort {records : List TokenRecord} {staged : Bool} {grammar : Grammar}
    (hgrid : Grid.organize records staged grammar = .ok c.grid) (hvalid : c.config.validate = .ok ())
    (hscores : ∀ s p, s.fault? = none → ∃ components, c.scorer.score s p c.grid c.config c.grammar = .ok components) (memo : Memo) :
    (∀ deadline, (∃ survey, ((run c deadline).run.run memo).1 = .ok survey ∧
        survey.decisions.map (·.position) = c.grid.positions) ∨
      ∃ fault, ((run c deadline).run.run memo).1 = .error fault ∧ c.Misread fault) ∧
    ∀ full, ((run c .never).run.run memo).1 = .ok full → full.deadlineExpired = false ∧ ∃ cut : Nat → Survey,
      (∀ checks, ((run c (.after checks)).run.run memo).1 = .ok (cut checks) ∧ CutShort c checks full (cut checks)) ∧
      ∀ n m, n ≤ m → ∀ p, Unprocessed (cut m) p → Unprocessed (cut n) p := by
  have h : c.Sound := ⟨hvalid, hscores, Grid.pairwise_positions hgrid, Grid.nodup_positions hgrid,
    fun _ hcell => Grid.fault?_of_mem_cells hgrid hcell⟩
  constructor
  · intro deadline
    rcases steps_or_misread h deadline memo with ⟨scans, memo', resolved, memo'', hscan, hsettle⟩ | hmisread
    · obtain ⟨survey, hrun, _, hpositions⟩ := run_of_steps h hscan hsettle
      exact Or.inl ⟨survey, hrun.answer, hpositions⟩
    · exact Or.inr hmisread
  · intro full hfull
    rcases steps_or_misread h .never memo with ⟨scans, memo', resolved, memo'', hscan, hsettle⟩ | ⟨fault, hfails, _⟩
    · obtain ⟨survey, hrun, hperm, hpositions⟩ := run_of_steps h hscan hsettle
      obtain rfl := Except.ok.inj (hfull.symm.trans hrun.answer)
      rw [steps_never (f := surveyRow c)] at hscan
      rw [steps_never (f := fun expired (scan : RowSurvey) => settleRow c expired scan.flagged)] at hsettle
      constructor
      · unfold deadlineExpired
        rw [List.any_eq_false]
        intro d hd
        simpa using (known_of_full h hscan hsettle (hperm.mem_iff.1 hd)).1
      · choose cut final hcut hsame left hleft hover using exists_run_after h hscan hsettle
        refine ⟨cut, ?_, ?_⟩
        · intro checks
          exact ⟨(hcut checks).answer,
            cutShort_of_perm h hscan hsettle hperm hpositions (hsame checks) (hleft checks) (hover checks)⟩
        · intro n m hnm p hp
          exact unprocessed_anti h hnm (hsame m) (hsame n) (hleft m) (hleft n) (hover n) hp
    · cases hfull.symm.trans hfails

/-- Two records in two rows, of which the second is no identifier. -/
def rowRecords : List TokenRecord := [
  ⟨.terminal, "identifier", "x", some 0, some 0, none, none, none, "", 1⟩,
  ⟨.terminal, "identifier", "@@", some 1, some 0, none, none, none, "", 1⟩]

/-- The grid of the two rows. -/
def rowGrid : Grid where
  staged := false
  cells := [
    (⟨0, 0, none⟩, ⟨Grid.symbolName 1 ⟨0, 0, none⟩, .terminal, "x", "identifier", .identifier, 1, none, none, none⟩),
    (⟨1, 0, none⟩, ⟨Grid.symbolName 2 ⟨1, 0, none⟩, .terminal, "@@", "identifier", .identifier, 1, none, none, none⟩)]

/-- The survey of the two rows comes to an end, and so do those that are cut short. -/
theorem run_cutShort_rows : ∃ full, ((run ⟨rowGrid, .default, .default, .standard⟩ .never).run.run .empty).1 = .ok full ∧
    full.deadlineExpired = false ∧ ∃ cut : Nat → Survey,
      (∀ checks, ((run ⟨rowGrid, .default, .default, .standard⟩ (.after checks)).run.run .empty).1 = .ok (cut checks) ∧
        CutShort ⟨rowGrid, .default, .default, .standard⟩ checks full (cut checks)) ∧
      ∀ n m, n ≤ m → ∀ p, Unprocessed (cut m) p → Unprocessed (cut n) p := by
  have hgrid : Grid.organize rowRecords rowGrid.staged .default = .ok rowGrid :=
    Grid.organize_of_ordered (by decide +kernel) (by decide +kernel) (by decide +kernel)
  have hscores : ∀ s p, s.fault? = none → ∃ components, Scorer.standard.score s p rowGrid .default .default = .ok components :=
    fun s p hs => Scoring.exists_standard (Symbol.isKnown_of_fault? hs) p rowGrid .default .default
  obtain ⟨hends, hcut⟩ := run_cutShort (c := ⟨rowGrid, .default, .default, .standard⟩) hgrid Config.validate_default hscores .empty
  rcases hends .never with ⟨full, hfull, _⟩ | ⟨fault, _, r, hr, hunknown, _⟩
  · exact ⟨full, hfull, hcut full hfull⟩
  · have hknown : ∀ r ∈ Grammar.default.readings, r.hint.isKnown = true := by decide
    rw [hknown r hr] at hunknown
    cases hunknown

end Survey

end TokenForest
