import TokenForest.Proofs.Batch.Confidences
import TokenForest.Proofs.Grid.Faults
import TokenForest.Proofs.Session

/-!
# What can stop a batch

A batch stops at its configuration, or else at its stream, and at nothing behind them: on a grid the checks that components, decisions,
symbols, nodes and classes have to pass are all passed, whenever the deadline passes and whether the forest is merged or not.
-/

namespace TokenForest

/-! ## Nodes that are made by hand -/

namespace Forest

variable {f : Forest} {t : Binary64}

/-- The check of a node reads its kind, and whether it has a symbol and children. -/
theorem checkNode_congr {info info' : NodeInfo} {children children' : List Nat} (hkind : info.kind = info'.kind)
    (hsymbol : info.symbol = info'.symbol) (hchildren : children = [] ↔ children' = []) :
    checkNode info children = checkNode info' children' := by
  unfold checkNode
  rw [hkind, hsymbol]
  simp only [ne_eq, hchildren]

/-- The nodes of a merged forest can be made by hand when those before could. -/
theorem WellFormed.checked_quotient (hf : f.WellFormed) (h : f.Checked) (t : Binary64) : (f.quotient t).Checked := by
  intro i hi
  have hwalk := hf.mem_walk_of_mem_walk_quotient hi
  have hinfo := hf.info_quotient t i
  have hchildren := hf.children_quotient t hwalk
  rw [← h i hwalk]
  apply checkNode_congr
  · rw [hinfo]
  · rw [hinfo]
  · rw [hchildren, List.map_eq_nil_iff]

end Forest

namespace Batch

variable {records : List TokenRecord} {config : Config} {grammar : Grammar} {scorer : Scorer} {deadline : Deadline} {merging : Bool}
  {batch : Batch}

/-- Merging, when a tolerance is given, passes the checks. -/
theorem passesChecks_of_mapM_merge {built : Forest} (hf : built.WellFormed) (hcheck : built.Checked) {tolerance : Option Binary64}
    {merge : Option Forest.Merged} (h : tolerance.mapM built.merge = .ok merge) : ((merge.map (·.forest)).getD built).Checked ∧
      ∀ m ∈ merge, ∀ c ∈ m.classes, EquivalenceClass.make? c.representative c.members c.confidence = .ok c := by
  cases tolerance with
  | none =>
    cases h
    exact ⟨hcheck, by simp⟩
  | some t =>
    obtain ⟨m, hm, h⟩ := ok_of_bind h
    cases h
    rw [built.merge_eq (Forest.isTolerance_of_merge hm)] at hm
    cases hm
    refine ⟨hf.checked_quotient hcheck t, ?_⟩
    rintro m hm c hc
    cases hm
    exact Forest.make?_of_reported hc

/-- Whatever comes to an end passes the checks. -/
theorem passesChecks_of_run (h : run records config grammar scorer deadline merging = .ok batch) : batch.PassesChecks := by
  obtain ⟨grid, survey, _, _, _, h⟩ := exists_survey_of_run h
  obtain ⟨hf, _⟩ := Forest.adds_ofTrees (Assembly.ofDecisions survey.decisions grid grammar).roots
  obtain ⟨hcheck, _⟩ : (Forest.ofTrees (Assembly.ofDecisions survey.decisions grid grammar).roots).Checked ∧ _ :=
    Assembly.confidences_ofDecisions (P := fun _ => True) (fun _ _ => trivial) (fun _ _ _ => trivial)
  obtain ⟨merge, hmerge, h⟩ := ok_of_bind h
  cases h
  obtain ⟨hnodes, hclasses⟩ := passesChecks_of_mapM_merge hf hcheck hmerge
  exact ⟨hnodes, hclasses⟩

/-! ## Runs -/

/-- Everything that can stop a batch of records that pass their checks: it fails just with the fault of its configuration, or else of
its stream, and comes to an end otherwise, with all checks passed. The fault of a stream has a reason code, unless a coordinate is too
long to be written. -/
theorem run_failures (hrecords : ∀ r ∈ records, r.fault? = none) (config : Config) (deadline : Deadline) (merging : Bool) :
    (∀ fault, run records config .default .standard deadline merging = .error fault ↔
      (∃ f, config.validate = .error f ∧ fault = .config f) ∨
        ∃ f, config.validate = .ok () ∧ Grid.organize records config.staging.enabled .default = .error f ∧ fault = .grid f) ∧
    (∀ f, Grid.organize records config.staging.enabled .default = .error f →
      f.reason?.isSome = true ∨ f = .longPosition ∧ ¬Grid.Writable records) ∧
    (∀ grid, config.validate = .ok () → Grid.organize records config.staging.enabled .default = .ok grid →
      ∃ batch, run records config .default .standard deadline merging = .ok batch ∧ batch.PassesChecks) := by
  have hends : ∀ grid, config.validate = .ok () → Grid.organize records config.staging.enabled .default = .ok grid →
      ∃ batch, run records config .default .standard deadline merging = .ok batch ∧ batch.PassesChecks := by
    intro grid hvalid hgrid
    obtain ⟨batch, hbatch⟩ := exists_run_of_grid hgrid hvalid Session.known_default deadline merging
    exact ⟨batch, hbatch, passesChecks_of_run hbatch⟩
  refine ⟨fun fault => ?_, fun f hf => Grid.organize_eq_error hrecords Session.known_default hf, hends⟩
  cases hvalid : config.validate with
  | error f =>
    have hrun : run records config .default .standard deadline merging = .error (.config f) := by
      rw [run, hvalid]
      rfl
    rw [hrun]
    simp [eq_comm]
  | ok u =>
    cases hgrid : Grid.organize records config.staging.enabled .default with
    | error f =>
      have hrun : run records config .default .standard deadline merging = .error (.grid f) := by
        rw [run, hvalid, hgrid]
        rfl
      rw [hrun]
      simp [eq_comm]
    | ok grid =>
      obtain ⟨batch, hbatch, _⟩ := hends grid hvalid hgrid
      rw [hbatch]
      simp

/-- The batch of two records of which one is no identifier comes to an end although its time is over from the start, merged. -/
theorem run_failures_twoRecords : (∀ r ∈ twoRecords, r.fault? = none) ∧
    (∀ f, Grid.organize twoRecords Config.default.staging.enabled .default = .error f →
      f.reason?.isSome = true ∨ f = .longPosition ∧ ¬Grid.Writable twoRecords) ∧
    ∃ batch, run twoRecords .default .default .standard .past true = .ok batch ∧ batch.PassesChecks := by
  have hrecords : ∀ r ∈ twoRecords, r.fault? = none := by
    simp [twoRecords, TokenRecord.fault?_eq_none_iff, SymbolClass.isKnown, Binary64.inUnit_one]
  obtain ⟨_, hstream, hends⟩ := run_failures hrecords .default .past true
  exact ⟨hrecords, hstream, hends twoGrid Config.validate_default organize_twoRecords⟩

end Batch

end TokenForest
