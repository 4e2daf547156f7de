import TokenForest.Proofs.Position
import TokenForest.Proofs.Survey.Lookups

/-!
# A survey covers its grid

The scan of a row decides on some of its positions and flags the others; the flagged ones are decided on afterwards, whatever
the deadline says and in whatever order the rows come. So a survey that comes to an end has exactly one decision on every
position, and each decision admits its symbol or excludes its position.
-/

namespace TokenForest

namespace Survey

variable {c : Context}

/-- The decision is final: its symbol is admitted, or its position is excluded. -/
def Final (d : Decision) : Prop := d.status.isAdmitted = true ∨ d.status.isExcluded = true

/-! ## Scans -/

theorem map_rowCells (grid : Grid) (lane : Lane) (row : Nat) :
    (rowCells grid lane row).map (·.1) = grid.rowPositions lane row := by
  have hcells : ∀ ps : List Position, (∀ p ∈ ps, p ∈ grid.positions) →
      (ps.filterMap (fun p => (grid.symbolAt? p).map (p, ·))).map (·.1) = ps := by
    intro ps
    induction ps with
    | nil => intro _; rfl
    | cons p ps ih =>
      intro h
      obtain ⟨s, hs⟩ := Grid.exists_symbolAt? (h p (by simp))
      rw [List.filterMap_cons, hs, Option.map_some, List.map_cons, ih fun q hq => h q (by simp [hq])]
  exact hcells _ fun p hp => (Grid.mem_rowPositions.1 hp).1

/-- A judged symbol is accepted, or its position is flagged. -/
theorem judge_eq {row : List Symbol} {entry : Nat × Position × Symbol} {j : Binary64 × Except Position Decision}
    (h : (judge c row entry).Produces j) :
    j.2 = .error entry.2.1 ∨ ∃ d, j.2 = .ok d ∧ d.position = entry.2.1 ∧ Final d := by
  obtain ⟨b, _, h⟩ := h.bind
  obtain ⟨intent, _, h⟩ := h.bind
  simp only at h
  split at h
  · obtain rfl := h.pure
    exact Or.inr ⟨_, rfl, rfl, Or.inl rfl⟩
  · obtain rfl := h.pure
    exact Or.inl rfl

theorem mem_accepted {judged : List (Binary64 × Except Position Decision)} {d : Decision} :
    d ∈ accepted judged ↔ ∃ j ∈ judged, j.2 = .ok d := by
  unfold accepted
  rw [List.mem_filterMap]
  refine exists_congr fun j => and_congr_right fun _ => ?_
  cases j.2 <;> simp [Except.toOption]

theorem mem_flagged {judged : List (Binary64 × Except Position Decision)} {p : Position} :
    p ∈ flagged judged ↔ ∃ j ∈ judged, j.2 = .error p := by
  unfold flagged
  rw [List.mem_filterMap]
  refine exists_congr fun j => and_congr_right fun _ => ?_
  cases j.2 <;> simp

/-- The accepted and the flagged positions of judged symbols are those of the symbols. -/
theorem judged_perm {row : List Symbol} {entries : List (Nat × Position × Symbol)}
    {judged : List (Binary64 × Except Position Decision)}
    (h : List.Forall₂ (fun entry j => (judge c row entry).Produces j) entries judged) :
    ((accepted judged).map (·.position) ++ flagged judged).Perm (entries.map (·.2.1)) ∧ ∀ d ∈ accepted judged, Final d := by
  induction h with
  | nil => exact ⟨List.Perm.refl _, by simp [accepted]⟩
  | @cons entry j entries judged hj _ ih =>
    obtain ⟨psi, r⟩ := j
    obtain ⟨hperm, hfinal⟩ := ih
    rcases judge_eq hj with rfl | ⟨d, rfl, hd, hfin⟩
    · exact ⟨List.perm_middle.trans (hperm.cons entry.2.1), hfinal⟩
    · refine ⟨?_, fun e he => ?_⟩
      · rw [List.map_cons, ← hd]
        exact hperm.cons d.position
      · rcases List.mem_cons.1 he with rfl | he
        · exact hfin
        · exact hfinal e he

theorem map_position_zipIdx (cells : List (Position × Symbol)) :
    (cells.zipIdx.map (fun e => (e.2, e.1))).map (·.2.1) = cells.map (·.1) := by
  have hfst : cells.zipIdx.map Prod.fst = cells := List.zipIdx_map_fst 0 cells
  rw [List.map_map]
  calc cells.zipIdx.map ((·.2.1) ∘ fun e => (e.2, e.1)) = (cells.zipIdx.map Prod.fst).map (·.1) := by
        rw [List.map_map]
        rfl
    _ = cells.map (·.1) := by rw [hfst]

/-- The scan of a row decides on its positions or flags them. -/
theorem surveyRow_perm {expired : Bool} {unit : Lane × Nat} {scan : RowSurvey}
    (h : (surveyRow c expired unit).Produces scan) :
    (scan.decisions.map (·.position) ++ scan.flagged).Perm (c.grid.rowPositions unit.1 unit.2) ∧
      ∀ d ∈ scan.decisions, Final d := by
  have hcells := map_rowCells c.grid unit.1 unit.2
  rw [surveyRow_eq] at h
  simp only at h
  split at h
  · obtain rfl := h.pure
    refine ⟨List.Perm.of_eq ?_, fun d hd => ?_⟩
    · rw [← hcells]
      simp [unscanned, Decision.skip]
    · obtain ⟨cell, _, rfl⟩ := List.mem_map.1 hd
      exact Or.inr rfl
  · obtain ⟨judged, hjudged, h⟩ := h.bind
    obtain rfl := h.pure
    obtain ⟨hperm, hfinal⟩ := judged_perm hjudged.mapM
    refine ⟨hperm.trans (List.Perm.of_eq ?_), hfinal⟩
    rw [← hcells]
    exact map_position_zipIdx _

/-! ## Flagged positions -/

section

variable (c : Context) (p : Position) (s : Symbol) (b : Breakdown) (r : Resolution)

@[simp] theorem position_settle : (settle c p s b r).position = p := by
  unfold settle
  cases r.chosen <;> rfl

@[simp] theorem original_settle : (settle c p s b r).original = s := by
  unfold settle
  cases r.chosen <;> rfl

@[simp] theorem psi_settle : (settle c p s b r).psi = b.psi := by
  unfold settle
  cases r.chosen <;> rfl

@[simp] theorem bestConfidence_settle : (settle c p s b r).bestConfidence = r.bestConfidence := by
  unfold settle
  cases r.chosen <;> rfl

/-- What is settled has the state of its resolution. -/
@[simp] theorem status_settle : (settle c p s b r).status = r.status := by
  unfold settle Resolution.status
  cases r.chosen <;> rfl

end

/-- A flagged position gets a final decision. -/
theorem resolvePosition_eq {expired : Bool} {p : Position} {d : Decision} (h : (resolvePosition c expired p).Produces d) :
    d.position = p ∧ Final d := by
  obtain ⟨s, _, h⟩ := h.bind
  obtain ⟨b, _, h⟩ := h.bind
  split at h
  · obtain rfl := h.pure
    exact ⟨rfl, Or.inr rfl⟩
  · obtain ⟨r, _, h⟩ := h.bind
    obtain rfl := h.pure
    rw [settle]
    split
    · exact ⟨rfl, Or.inl rfl⟩
    · exact ⟨rfl, Or.inr rfl⟩

theorem settleRow_eq {expired : Bool} {ps : List Position} {ds : List Decision} (h : (settleRow c expired ps).Produces ds) :
    ds.map (·.position) = ps ∧ ∀ d ∈ ds, Final d := by
  have hall := Evaluating.Produces.mapM h
  clear h
  induction hall with
  | nil => exact ⟨rfl, by simp⟩
  | cons hd _ ih =>
    obtain ⟨hposition, hfinal⟩ := resolvePosition_eq hd
    refine ⟨by rw [List.map_cons, hposition, ih.1], fun e he => ?_⟩
    rcases List.mem_cons.1 he with rfl | he
    · exact hfinal
    · exact ih.2 e he

/-! ## The whole survey -/

theorem map_snd_numbered {α : Type} (start : Nat) (units : List α) : (numbered start units).map (·.2) = units := by
  have hfst : units.zipIdx.map Prod.fst = units := List.zipIdx_map_fst 0 units
  rw [numbered, List.map_map]
  exact hfst

theorem snd_mem_of_mem_numbered {α : Type} {start : Nat} {units : List α} {e : Nat × α} (h : e ∈ numbered start units) :
    e.2 ∈ units := by
  rw [← map_snd_numbered start units]
  exact List.mem_map_of_mem h

/-- Lists that are permutations of each other in pairs are so when they are put one after the other. -/
theorem flatMap_perm_of_forall₂ {α β γ : Type} {f : α → List γ} {g : β → List γ} {xs : List α} {ys : List β}
    (h : List.Forall₂ (fun x y => (g y).Perm (f x)) xs ys) : (ys.flatMap g).Perm (xs.flatMap f) := by
  induction h with
  | nil => exact List.Perm.refl _
  | cons hxy _ ih =>
    rw [List.flatMap_cons, List.flatMap_cons]
    exact hxy.append ih

/-- The scans that wait for their flagged positions hold all flagged positions. -/
theorem pending_perm (scans : List RowSurvey) :
    ((pending scans).flatMap (·.flagged)).Perm (scans.flatMap (·.flagged)) := by
  have hwaiting : (scans.filter (fun s => !s.flagged.isEmpty)).flatMap (·.flagged) = scans.flatMap (·.flagged) := by
    induction scans with
    | nil => rfl
    | cons s scans ih =>
      rw [List.filter_cons, List.flatMap_cons, ← ih]
      by_cases hs : s.flagged = []
      · simp [hs]
      · simp [hs]
  rw [← hwaiting]
  exact (List.filter_append_perm (fun s : RowSurvey => s.profile.suspect) _).flatMap_right _

/-- The units of a survey hold every position of the grid. -/
theorem units_perm (grid : Grid) :
    ((units grid).flatMap (fun unit => grid.rowPositions unit.1 unit.2)).Perm grid.positions := by
  have hunits : (units grid).flatMap (fun unit => grid.rowPositions unit.1 unit.2) =
      grid.lanes.flatMap (fun lane => (grid.rows lane).flatMap (grid.rowPositions lane)) := by
    rw [units, List.flatMap_assoc]
    simp only [List.flatMap_map]
  rw [hunits]
  exact Grid.flatMap_lanes_perm grid

/-- The scans of all rows and what is decided on their flagged positions make one final decision on every position. -/
theorem decided_perm {deadline : Deadline} {scans : List RowSurvey} {resolved : List (List Decision)}
    (hscan : List.Forall₂ (fun e scan => (surveyRow c (deadline e.1) e.2).Produces scan) (numbered 0 (units c.grid)) scans)
    (hsettle : List.Forall₂ (fun e ds => (settleRow c (deadline e.1) e.2.flagged).Produces ds)
      (numbered (units c.grid).length (pending scans)) resolved) :
    ((scans.flatMap (·.decisions) ++ resolved.flatten).map (·.position)).Perm c.grid.positions ∧
      ∀ d ∈ scans.flatMap (·.decisions) ++ resolved.flatten, Final d := by
  -- the scans decide on some positions of each row and flag the others
  have hrows : (scans.flatMap (fun s => s.decisions.map (·.position) ++ s.flagged)).Perm c.grid.positions := by
    refine (flatMap_perm_of_forall₂ (hscan.imp fun _ _ hs => (surveyRow_perm hs).1)).trans ?_
    have hunits := units_perm c.grid
    rw [← map_snd_numbered 0 (units c.grid), List.flatMap_map] at hunits
    exact hunits
  -- the flagged positions are decided on in the order of the scans that wait
  have hflagged : (resolved.flatten.map (·.position)).Perm (scans.flatMap (·.flagged)) := by
    refine List.Perm.trans ?_ (pending_perm scans)
    have hsettled := flatMap_perm_of_forall₂ (f := fun e : Nat × RowSurvey => e.2.flagged)
      (g := fun ds : List Decision => ds.map (·.position))
      (hsettle.imp fun _ _ hs => List.Perm.of_eq (settleRow_eq hs).1)
    have hpending := map_snd_numbered (units c.grid).length (pending scans)
    rw [← hpending, List.flatMap_map, List.map_flatten, ← List.flatMap_def]
    exact hsettled
  constructor
  · rw [List.map_append, List.map_flatMap]
    exact (hflagged.append_left _).trans ((List.flatMap_append_perm scans _ _).trans hrows)
  · intro d hd
    rcases List.mem_append.1 hd with hd | hd
    · obtain ⟨s, hs, hd⟩ := List.mem_flatMap.1 hd
      obtain ⟨e, _, hscanned⟩ := exists_of_forall₂ hscan hs
      exact (surveyRow_perm hscanned).2 d hd
    · obtain ⟨ds, hds, hd⟩ := List.mem_flatten.1 hd
      obtain ⟨e, _, hsettled⟩ := exists_of_forall₂ hsettle hds
      exact (settleRow_eq hsettled).2 d hd

/-- A survey that comes to an end has exactly one final decision on every position. -/
theorem run_covers {deadline : Deadline} {survey : Survey} (h : (run c deadline).Produces survey) :
    (survey.decisions.map (·.position)).Perm c.grid.positions ∧ ∀ d ∈ survey.decisions, Final d := by
  rw [run_eq] at h
  obtain ⟨_, _, h⟩ := h.bind
  obtain ⟨scans, hscans, h⟩ := h.bind
  obtain ⟨resolved, hresolved, h⟩ := h.bind
  obtain ⟨hdecided, hfinal⟩ := decided_perm (List.forall₂_map_left_iff.1 hscans.runAll)
    (List.forall₂_map_left_iff.1 hresolved.runAll)
  simp only at h
  split at h
  · cases h.lift
  · obtain rfl := h.pure
    refine ⟨((List.mergeSort_perm _ _).map _).trans hdecided, fun d hd => hfinal d ?_⟩
    exact (List.mergeSort_perm _ _).mem_iff.1 hd

end Survey

end TokenForest
