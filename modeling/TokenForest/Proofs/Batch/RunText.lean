import TokenForest.Proofs.Batch.IntentThresholds
import TokenForest.Proofs.Position
import TokenForest.Proofs.Text

/-!
# What a run name says

A run name is the digest of a text with a part for each decision: its position, its state and its final tag. Tags are free texts, and one
that goes on like a further part is read as two: different outcomes may have one text (`runText_of_split_tag`). Where no tag contains
the start of a further part, the text says the positions, the states and the tags.
-/

namespace TokenForest

namespace Batch

variable {ds es : List Decision} {d e : Decision}

/-! ## Headers -/

/-- A field that ends with a character that is not in it is the same in one text. -/
theorem field_unique {xs ys s t : List Char} {c : Char} (hxs : c ∉ xs) (hys : c ∉ ys) (h : xs ++ c :: s = ys ++ c :: t) :
    xs = ys ∧ s = t := by
  rcases List.append_eq_append_iff.1 h with ⟨u, rfl, hu⟩ | ⟨u, rfl, hu⟩
  · cases u with
    | nil => simpa using hu
    | cons x u =>
      rw [List.cons_append, List.cons.injEq] at hu
      exact absurd (by simp [hu.1]) hys
  · cases u with
    | nil => simpa [eq_comm] using hu
    | cons x u =>
      rw [List.cons_append, List.cons.injEq] at hu
      exact absurd (by simp [hu.1]) hxs

/-- The marks of a text are not in the name of a final state, and the name says the state. -/
theorem name_of_final {status : Status} (h : status.isAdmitted = true ∨ status.isExcluded = true) :
    ':' ∉ status.name.toList ∧ '|' ∉ status.name.toList ∧ Status.ofName status.name = status := by
  cases status with
  | accepted => decide
  | resolved => decide
  | manualReview => decide
  | notProcessed => decide
  | pending => simp [Status.isAdmitted, Status.isExcluded] at h
  | flagged => simp [Status.isAdmitted, Status.isExcluded] at h
  | other name => simp [Status.isAdmitted, Status.isExcluded] at h

/-- The name of a position in front of a colon is the same in one text. -/
theorem label_unique {p q : Position} {s t : List Char} (h : p.label.toList ++ ':' :: s = q.label.toList ++ ':' :: t) :
    p = q ∧ s = t := by
  obtain ⟨r, c, l⟩ := p
  obtain ⟨r', c', l'⟩ := q
  rw [Position.toList_label, Position.toList_label] at h
  simp only [Position.cellText] at h
  cases l with
  | none =>
    cases l' with
    | none =>
      simp only [List.append_assoc, List.cons_append] at h
      obtain ⟨rfl, _, h⟩ := Position.number_unique rfl rfl h
      obtain ⟨rfl, _, h⟩ := Position.number_unique rfl rfl h
      exact ⟨rfl, h⟩
    | some l' =>
      simp only [List.append_assoc, List.cons_append] at h
      obtain ⟨_, hmark, _⟩ := Position.number_unique rfl rfl h
      cases hmark
  | some l =>
    cases l' with
    | none =>
      simp only [List.append_assoc, List.cons_append] at h
      obtain ⟨_, hmark, _⟩ := Position.number_unique rfl rfl h
      cases hmark
    | some l' =>
      simp only [List.append_assoc, List.cons_append] at h
      obtain ⟨rfl, _, h⟩ := Position.number_unique rfl rfl h
      obtain ⟨rfl, _, h⟩ := Position.number_unique rfl rfl h
      obtain ⟨rfl, _, h⟩ := Position.number_unique rfl rfl h
      exact ⟨rfl, h⟩

/-- The header of a final decision is the same in one text. -/
theorem header_unique {p q : Position} {status status' : Status} {s t : List Char}
    (hfinal : status.isAdmitted = true ∨ status.isExcluded = true) (hfinal' : status'.isAdmitted = true ∨ status'.isExcluded = true)
    (h : header p status ++ s = header q status' ++ t) : p = q ∧ status = status' ∧ s = t := by
  obtain ⟨hcolon, _, hname⟩ := name_of_final hfinal
  obtain ⟨hcolon', _, hname'⟩ := name_of_final hfinal'
  simp only [header, List.append_assoc, List.cons_append, List.nil_append] at h
  obtain ⟨rfl, hrest⟩ := label_unique h
  obtain ⟨hnames, rfl⟩ := field_unique hcolon hcolon' hrest
  exact ⟨rfl, by rw [← hname, ← hname', String.toList_inj.1 hnames], rfl⟩

/-- There is no mark between parts in a header. -/
theorem mark_notMem_header {p : Position} {status : Status} (h : status.isAdmitted = true ∨ status.isExcluded = true) :
    '|' ∉ header p status := by
  have hdigits : ∀ n : Nat, '|' ∉ (toString n).toList := fun n hn => by
    have hdigit := Position.isDigit_of_mem_toString hn
    revert hdigit
    decide
  have hlabel : '|' ∉ p.label.toList := by
    rw [Position.toList_label]
    cases p.lane <;> simp only [Position.cellText, List.mem_append, List.mem_cons, hdigits] <;> decide
  simp [header, hlabel, (name_of_final h).2.1]

/-! ## Parts -/

/-- What a part says after its header: the final tag, or a dash. -/
def tagText (d : Decision) : List Char := ((d.symbol.map (·.typeTag)).getD "-").toList

/-- The parts of some decisions, each with the mark in front of it. -/
def partsText (decisions : List Decision) : List Char :=
  decisions.flatMap (fun d => '|' :: (header d.position d.status ++ tagText d))

theorem toList_runPart (d : Decision) : (runPart d).toList = header d.position d.status ++ tagText d := by
  have hself : ∀ s : String, toString s = s := fun _ => rfl
  cases h : d.symbol <;> simp [runPart, header, tagText, h, hself]

/-- A text is about outcomes only. -/
theorem runText_eq (decisions : List Decision) : runText decisions = String.intercalate "|" (version ::
    (decisions.map outcome).map (fun o => s!"{o.1.label}:{o.2.1.name}:" ++ o.2.2.getD "-")) := by
  rw [runText, List.map_map]
  congr 2
  refine List.map_congr_left fun d _ => ?_
  cases h : d.symbol <;> simp [runPart, outcome, h]

theorem toList_runText (decisions : List Decision) : (runText decisions).toList = version.toList ++ partsText decisions := by
  have hmark : "|".toList = ['|'] := rfl
  rw [runText, toList_intercalate_cons, List.flatMap_map, partsText]
  simp only [hmark, toList_runPart, List.singleton_append]

/-- The rest of a text is empty or starts with the mark. -/
theorem partsText_eq (decisions : List Decision) : partsText decisions = [] ∨ ∃ rest, partsText decisions = '|' :: rest := by
  cases decisions with
  | nil => exact Or.inl rfl
  | cons d decisions => exact Or.inr ⟨_, by rw [partsText, List.flatMap_cons]; rfl⟩

/-- What is left of some parts when a text is taken from their front, up to the end or a mark, starts with the whole header of the first one. -/
theorem header_prefix {u : List Char} (hd : Survey.Final d) (hu : u ≠ [])
    (h : partsText (d :: ds) = u ++ partsText es) : ('|' :: header d.position d.status) <+: u := by
  have hparts : partsText (d :: ds) = ('|' :: header d.position d.status) ++ (tagText d ++ partsText ds) := by
    rw [partsText, List.flatMap_cons, List.cons_append, List.cons_append, List.append_assoc]
    rfl
  rw [hparts] at h
  rcases List.append_eq_append_iff.1 h with ⟨w, rfl, _⟩ | ⟨w, hw, hrest⟩
  · exact List.prefix_append _ _
  · -- the header would go on into the other parts, which start with a mark
    cases w with
    | nil =>
      rw [List.append_nil] at hw
      exact hw ▸ List.prefix_refl _
    | cons x w =>
      obtain ⟨y, u, rfl⟩ := List.exists_cons_of_ne_nil hu
      rw [List.cons_append, List.cons.injEq] at hw
      rcases partsText_eq es with hnil | ⟨rest, hmark⟩
      · rw [hnil] at hrest
        cases hrest
      · rw [hmark, List.cons_append, List.cons.injEq] at hrest
        exact absurd (by rw [hw.2, ← hrest.1]; simp) (mark_notMem_header (p := d.position) hd)

/-- A sealed tag does not go on into the parts behind another one at the position. -/
theorem tagText_unique {u : List Char} (hsealed : Sealed [e])
    (hds : ∀ d ∈ ds, Survey.Final d ∧ e.position.Before d.position) (htag : tagText e = tagText d ++ u)
    (hrest : partsText ds = u ++ partsText es) : u = [] := by
  by_contra hu
  cases ds with
  | nil => exact hu (List.append_eq_nil_iff.1 hrest.symm).1
  | cons d' ds =>
    obtain ⟨hfinal, hbefore⟩ := hds d' (by simp)
    have hheader := header_prefix hfinal hu hrest
    cases hsymbol : e.symbol with
    | none =>
      have hmark : '|' ∈ tagText e := by
        rw [htag]
        exact List.mem_append_right _ (hheader.subset (by simp))
      revert hmark
      simp [tagText, hsymbol]
    | some s =>
      refine hsealed e (by simp) s hsymbol _ _ hbefore hfinal ?_
      have htext : s.typeTag.toList = tagText e := by simp [tagText, hsymbol]
      rw [htext, htag]
      exact hheader.isInfix.trans (List.suffix_append _ _).isInfix

/-- A final decision has a symbol just if its position is admitted. -/
theorem isSome_symbol (h : Survey.Final d) : d.symbol.isSome = d.status.isAdmitted := by
  have hcoherent := d.coherent
  rcases h with h | h <;> cases hsymbol : d.symbol <;> cases hstatus : d.status <;>
    simp_all [Decision.fault?, Status.isAdmitted, Status.isExcluded]

/-- State and tag in a part say the outcome. -/
theorem outcome_eq (hd : Survey.Final d) (he : Survey.Final e) (hposition : d.position = e.position) (hstatus : d.status = e.status)
    (htag : tagText d = tagText e) : outcome d = outcome e := by
  have hsome : d.symbol.isSome = e.symbol.isSome := by rw [isSome_symbol hd, isSome_symbol he, hstatus]
  have hsymbols : d.symbol.map (·.typeTag) = e.symbol.map (·.typeTag) := by
    rw [tagText, tagText, String.toList_inj] at htag
    cases hs : d.symbol <;> cases hs' : e.symbol <;> simp_all
  rw [outcome, outcome, hposition, hstatus, hsymbols]

/-- Sealed parts of final decisions in order say their outcomes. -/
theorem outcomes_of_partsText (hds : ∀ d ∈ ds, Survey.Final d) (hes : ∀ e ∈ es, Survey.Final e)
    (hbefore : (ds.map (·.position)).Pairwise Position.Before) (hbefore' : (es.map (·.position)).Pairwise Position.Before)
    (hsealed : Sealed ds) (hsealed' : Sealed es) (h : partsText ds = partsText es) : ds.map outcome = es.map outcome := by
  induction ds generalizing es with
  | nil =>
    cases es with
    | nil => rfl
    | cons e es => cases h
  | cons d ds ih =>
    cases es with
    | nil => cases h
    | cons e es =>
      rw [partsText, partsText, List.flatMap_cons, List.flatMap_cons, List.cons_append, List.cons_append, List.cons.injEq,
        List.append_assoc, List.append_assoc] at h
      obtain ⟨hposition, hstatus, htags⟩ := header_unique (hds d (by simp)) (hes e (by simp)) h.2
      rw [List.map_cons, List.pairwise_cons] at hbefore hbefore'
      have hlater : ∀ x ∈ ds, Survey.Final x ∧ e.position.Before x.position := fun x hx =>
        ⟨hds x (by simp [hx]), hposition ▸ hbefore.1 _ (List.mem_map_of_mem hx)⟩
      have hlater' : ∀ x ∈ es, Survey.Final x ∧ d.position.Before x.position := fun x hx =>
        ⟨hes x (by simp [hx]), hposition ▸ hbefore'.1 _ (List.mem_map_of_mem hx)⟩
      have hfirst : Sealed [d] := fun x hx => hsealed x (by simp [List.mem_singleton.1 hx])
      have hfirst' : Sealed [e] := fun x hx => hsealed' x (by simp [List.mem_singleton.1 hx])
      have htag : tagText d = tagText e ∧ partsText ds = partsText es := by
        rcases List.append_eq_append_iff.1 htags with ⟨u, hu, hrest⟩ | ⟨u, hu, hrest⟩
        · obtain rfl := tagText_unique hfirst' hlater hu hrest
          exact ⟨by simpa using hu.symm, hrest⟩
        · obtain rfl := tagText_unique hfirst hlater' hu hrest
          exact ⟨by simpa using hu, hrest.symm⟩
      rw [List.map_cons, List.map_cons, outcome_eq (hds d (by simp)) (hes e (by simp)) hposition hstatus htag.1,
        ih (fun x hx => hds x (by simp [hx])) (fun x hx => hes x (by simp [hx])) hbefore.2 hbefore'.2
          (fun x hx => hsealed x (by simp [hx])) (fun x hx => hsealed' x (by simp [hx])) htag.2]

/-! ## Surveys -/

/-- The decisions of a survey are final and come in source order. -/
theorem Surveyed.ordered (h : Surveyed ds) : (∀ d ∈ ds, Survey.Final d) ∧ (ds.map (·.position)).Pairwise Position.Before := by
  obtain ⟨records, staged, source, grid, hgrid, config, grammar, scorer, deadline, survey, hsurvey, rfl⟩ := h
  obtain ⟨hperm, hfinal⟩ := Survey.run_covers hsurvey
  have hnodup : (survey.decisions.map (·.position)).Nodup := hperm.nodup_iff.2 (Grid.nodup_positions hgrid)
  have hsorted : (survey.decisions.map (·.position)).Pairwise (fun p q => p.le q = true) := by
    rw [Survey.run_eq] at hsurvey
    obtain ⟨_, _, hsurvey⟩ := hsurvey.bind
    obtain ⟨scans, _, hsurvey⟩ := hsurvey.bind
    obtain ⟨resolved, _, hsurvey⟩ := hsurvey.bind
    simp only at hsurvey
    split at hsurvey
    · cases hsurvey.lift
    · obtain rfl := hsurvey.pure
      rw [List.pairwise_map]
      exact List.pairwise_mergeSort (fun a b c => Position.le_trans a.position b.position c.position)
        (fun a b => Position.le_total a.position b.position) _
  exact ⟨hfinal, hsorted.imp₂ (fun _ _ => Position.before_of_le) hnodup⟩

/-- The text of a run identifies its outcome. For any two surveys of any streams, under any configurations, deadlines and scorers, whose
final tags do not contain the start of a further part, the texts are the same just if the sequences of positions, states and final tags are. -/
theorem runText_eq_iff (hds : Surveyed ds) (hes : Surveyed es) (hsealed : Sealed ds) (hsealed' : Sealed es) :
    runText ds = runText es ↔ ds.map outcome = es.map outcome := by
  obtain ⟨hfinal, hbefore⟩ := hds.ordered
  obtain ⟨hfinal', hbefore'⟩ := hes.ordered
  constructor
  · intro h
    have hlists := congrArg String.toList h
    rw [toList_runText, toList_runText] at hlists
    exact outcomes_of_partsText hfinal hfinal' hbefore hbefore' hsealed hsealed' (List.append_cancel_left hlists)
  · intro h
    rw [runText_eq, runText_eq, h]

/-- Tags without the mark between parts contain no start of one. -/
theorem sealed_of_outcomes (h : ∀ o ∈ ds.map outcome, ∀ tag ∈ o.2.2, '|' ∉ tag.toList) : Sealed ds :=
  fun d hd s hs _ _ _ _ hpart => h (outcome d) (List.mem_map_of_mem hd) s.typeTag (by simp [outcome, hs]) (hpart.subset (by simp))

/-! ## Runs -/

variable {records : List TokenRecord} {config : Config}

theorem surveyed_of_run {batch : Batch} {grammar : Grammar} {scorer : Scorer} {deadline : Deadline} {merging : Bool}
    (h : run records config grammar scorer deadline merging = .ok batch) : Surveyed batch.survey.decisions := by
  obtain ⟨grid, survey, _, hgrid, hsurvey, hbatch⟩ := exists_survey_of_run h
  refine ⟨_, _, _, grid, hgrid, _, _, _, _, survey, Evaluating.produces_of_run hsurvey, ?_⟩
  obtain ⟨_, _, hbatch⟩ := ok_of_bind hbatch
  rw [← Except.ok.inj hbatch]

/-- The outcomes of a run are found by deciding on one position after the other. -/
theorem exists_run_of_outcomes {grid : Grid} {outcomes : List (Position × Status × Option String)}
    (hgrid : Grid.organize records false .default = .ok grid) (hoff : config.staging.enabled = false) (hvalid : config.validate = .ok ())
    (h : (grid.positions.mapM (Survey.verdict (.standard grid config .default))).toOption.map (·.map outcome) = some outcomes) :
    ∃ batch, run records config .default .standard .never false = .ok batch ∧ batch.survey.decisions.map outcome = outcomes := by
  rw [← hoff] at hgrid
  obtain ⟨batch, hbatch⟩ := exists_run_of_organize hgrid hvalid Session.known_default false
  obtain ⟨grid', hgrid', hverdicts, _⟩ := verdicts_of_run hbatch
  obtain rfl : grid' = grid := Except.ok.inj (hgrid'.symm.trans hgrid)
  have hdecisions : grid'.positions.mapM (Survey.verdict (.standard grid' config .default)) = .ok batch.survey.decisions :=
    hverdicts.mapM_verdict
  rw [hdecisions] at h
  exact ⟨batch, hbatch, Option.some.inj h⟩

/-- Everything that is read with some confidence is accepted. -/
def lenient : Config := { Config.default with thetaMin := 0.3 }

/-- Two symbols with tags that are in no registry. -/
def splitRecords : List TokenRecord := [
  ⟨.terminal, "x", "a", some 0, some 0, none, none, none, "", 1⟩,
  ⟨.terminal, "y", "b", some 0, some 1, none, none, none, "", 1⟩]

/-- One symbol with a tag. -/
def soleRecords (tag : String) : List TokenRecord := [⟨.terminal, tag, "a", some 0, some 0, none, none, none, "", 1⟩]

/-- The tag of the first of two symbols, and what a text says of the other one. -/
def joinedTag : String := "x|0:1:accepted:y"

/-- The grid of the two symbols. -/
def splitGrid : Grid where
  staged := false
  cells := [
    (⟨0, 0, none⟩, ⟨Grid.symbolName 1 ⟨0, 0, none⟩, .terminal, "a", "x", .identifier, 1, none, none, none⟩),
    (⟨0, 1, none⟩, ⟨Grid.symbolName 2 ⟨0, 1, none⟩, .terminal, "b", "y", .identifier, 1, none, none, none⟩)]

/-- The grid of the one symbol. -/
def soleGrid (tag : String) : Grid where
  staged := false
  cells := [(⟨0, 0, none⟩, ⟨Grid.symbolName 1 ⟨0, 0, none⟩, .terminal, "a", tag, .identifier, 1, none, none, none⟩)]

theorem validate_lenient : lenient.validate = .ok () :=
  have hdefault := Config.valid_of_validate Config.validate_default
  Config.validate_eq_ok_iff.2
    ⟨hdefault.applied, Binary64.inUnit_ofScientific (by decide), rfl, rfl, hdefault.tolerance, hdefault.workers⟩

/-- Symbols are placed where the records say. -/
theorem placeAll_splitRecords :
    Grid.placeAll splitGrid.staged .default [] 1 splitRecords = .ok splitGrid.cells.reverse ∧
      ∀ tag ∈ ["x", joinedTag],
        Grid.placeAll (soleGrid tag).staged .default [] 1 (soleRecords tag) = .ok (soleGrid tag).cells.reverse := by decide +kernel

/-- Under the lenient configuration the two symbols are accepted, and so is a single one. -/
theorem outcomes_splitGrid :
    (splitGrid.positions.mapM (Survey.verdict (.standard splitGrid lenient .default))).toOption.map (·.map outcome) =
        some [(⟨0, 0, none⟩, .accepted, some "x"), (⟨0, 1, none⟩, .accepted, some "y")] ∧
      ∀ tag ∈ ["x", joinedTag],
        ((soleGrid tag).positions.mapM (Survey.verdict (.standard (soleGrid tag) lenient .default))).toOption.map (·.map outcome) =
          some [(⟨0, 0, none⟩, .accepted, some tag)] := by decide +kernel

theorem exists_run_splitRecords : ∃ batch, run splitRecords lenient .default .standard .never false = .ok batch ∧
    batch.survey.decisions.map outcome = [(⟨0, 0, none⟩, .accepted, some "x"), (⟨0, 1, none⟩, .accepted, some "y")] := by
  have horganize : Grid.organize splitRecords splitGrid.staged .default = .ok splitGrid :=
    Grid.organize_of_ordered placeAll_splitRecords.1 (by decide) (by decide)
  exact exists_run_of_outcomes horganize rfl validate_lenient outcomes_splitGrid.1

theorem exists_run_soleRecords {tag : String} (h : tag ∈ ["x", joinedTag]) :
    ∃ batch, run (soleRecords tag) lenient .default .standard .never false = .ok batch ∧
      batch.survey.decisions.map outcome = [(⟨0, 0, none⟩, .accepted, some tag)] := by
  have horganize : Grid.organize (soleRecords tag) (soleGrid tag).staged .default = .ok (soleGrid tag) :=
    Grid.organize_of_ordered (placeAll_splitRecords.2 tag h) (List.pairwise_singleton _ _) (List.nodup_singleton _)
  exact exists_run_of_outcomes horganize rfl validate_lenient (outcomes_splitGrid.2 tag h)

/-- The two symbols have another text than the first one alone. -/
theorem runText_eq_iff_split : ∃ batch batch', run splitRecords lenient .default .standard .never false = .ok batch ∧
    run (soleRecords "x") lenient .default .standard .never false = .ok batch' ∧
    Surveyed batch.survey.decisions ∧ Surveyed batch'.survey.decisions ∧
    Sealed batch.survey.decisions ∧ Sealed batch'.survey.decisions ∧
    runText batch.survey.decisions ≠ runText batch'.survey.decisions := by
  obtain ⟨batch, hbatch, houtcomes⟩ := exists_run_splitRecords
  obtain ⟨batch', hbatch', houtcomes'⟩ := exists_run_soleRecords List.mem_cons_self
  have hds := surveyed_of_run hbatch
  have hes := surveyed_of_run hbatch'
  have hsealed : Sealed batch.survey.decisions := by
    refine sealed_of_outcomes (houtcomes ▸ ?_)
    decide
  have hsealed' : Sealed batch'.survey.decisions := by
    refine sealed_of_outcomes (houtcomes' ▸ ?_)
    decide
  refine ⟨batch, batch', hbatch, hbatch', hds, hes, hsealed, hsealed', ?_⟩
  rw [Ne, runText_eq_iff hds hes hsealed hsealed', houtcomes, houtcomes']
  decide

/-- A tag may be read as the rest of its part and another one: the run on the one symbol and the run on the two have one text, and
different outcomes. -/
theorem runText_of_split_tag : ∃ batch batch', run (soleRecords joinedTag) lenient .default .standard .never false = .ok batch ∧
    run splitRecords lenient .default .standard .never false = .ok batch' ∧
    runText batch.survey.decisions = runText batch'.survey.decisions ∧
    batch.survey.decisions.map outcome ≠ batch'.survey.decisions.map outcome := by
  obtain ⟨batch, hbatch, houtcomes⟩ := exists_run_soleRecords (List.mem_cons_of_mem "x" List.mem_cons_self)
  obtain ⟨batch', hbatch', houtcomes'⟩ := exists_run_splitRecords
  refine ⟨batch, batch', hbatch, hbatch', ?_, ?_⟩
  · rw [runText_eq, runText_eq, houtcomes, houtcomes']
    decide
  · rw [houtcomes, houtcomes']
    decide

end Batch

end TokenForest
