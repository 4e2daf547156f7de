import Mathlib.Data.List.Nodup
import Mathlib.Data.List.Perm.Basic
import TokenForest.Config.Agreement
import TokenForest.Config.Form
import TokenForest.Proofs.Config.Valid
import TokenForest.Proofs.Grouping

/-!
# Writing and reading configurations

A valid configuration that is written as a JSON object is read back from it: its maps come in order of their names, and everything else
as it was.
-/

namespace TokenForest

theorem Intent.ofName_name {i : Intent} (h : i.isKnown = true) : ofName i.name = i := by
  cases i with
  | other name => cases h
  | _ => rfl

namespace Staging

/-! ## Sets of identifiers -/

variable {ids ids' : List Int}

/-- Ascending lists with the same elements are the same. -/
theorem eq_of_ascending (h : ids.Pairwise (· < ·)) (h' : ids'.Pairwise (· < ·)) (hmem : ∀ x, x ∈ ids ↔ x ∈ ids') : ids = ids' := by
  have hperm : ids.Perm ids' := (List.perm_ext_iff_of_nodup (h.imp Int.ne_of_lt) (h'.imp Int.ne_of_lt)).2 hmem
  exact hperm.eq_of_pairwise (fun _ _ _ _ hab hba => absurd hab (Int.lt_asymm hba)) h h'

theorem mem_idSet {x : Int} : x ∈ idSet ids ↔ x ∈ ids := by
  rw [idSet, List.mem_mergeSort, List.mem_eraseDups]

theorem ascending_idSet (ids : List Int) : (idSet ids).Pairwise (· < ·) := by
  have hsorted : (idSet ids).Pairwise (fun a b => decide (a ≤ b) = true) := by
    apply List.pairwise_mergeSort
    · intro a b c hab hbc
      simp only [decide_eq_true_eq] at hab hbc ⊢
      omega
    · intro a b
      simp only [Bool.or_eq_true, decide_eq_true_eq]
      omega
  have hnodup : (idSet ids).Nodup := (List.mergeSort_perm _ _).nodup_iff.2 (Grouping.nodup_eraseDups ids)
  refine hsorted.imp₂ (fun a b hle hne => ?_) hnodup
  rw [decide_eq_true_eq] at hle
  omega

theorem idSet_congr (h : ∀ x, x ∈ ids ↔ x ∈ ids') : idSet ids = idSet ids' :=
  eq_of_ascending (ascending_idSet ids) (ascending_idSet ids') (by simpa only [mem_idSet] using h)

theorem idSet_of_ascending (h : ids.Pairwise (· < ·)) : idSet ids = ids :=
  eq_of_ascending (ascending_idSet ids) h fun _ => mem_idSet

end Staging

namespace Config

/-! ## Maps in order -/

variable {c : Config}

theorem sortPairs_perm (pairs : List (String × Binary64)) : (sortPairs pairs).Perm pairs := List.mergeSort_perm _ _

theorem sortThresholds_perm (pairs : List (Intent × Binary64)) : (sortThresholds pairs).Perm pairs := List.mergeSort_perm _ _

/-- The names come in order. -/
theorem pairwise_sortPairs (pairs : List (String × Binary64)) : (sortPairs pairs).Pairwise (fun a b => a.1 ≤ b.1) := by
  have hsorted : (sortPairs pairs).Pairwise (fun a b => decide (a.1 ≤ b.1) = true) := by
    apply List.pairwise_mergeSort
    · intro a b c hab hbc
      simp only [decide_eq_true_eq] at hab hbc ⊢
      exact String.le_trans hab hbc
    · intro a b
      simpa only [Bool.or_eq_true, decide_eq_true_eq] using String.le_total a.1 b.1
  simpa only [decide_eq_true_eq] using hsorted

theorem sortPairs_of_pairwise {pairs : List (String × Binary64)} (h : pairs.Pairwise (fun a b => a.1 ≤ b.1)) :
    sortPairs pairs = pairs :=
  List.mergeSort_of_pairwise (by simpa only [decide_eq_true_eq] using h)

theorem sortPairs_sortPairs (pairs : List (String × Binary64)) : sortPairs (sortPairs pairs) = sortPairs pairs :=
  sortPairs_of_pairwise (pairwise_sortPairs pairs)

/-- Where no name is used twice, the order of the names is the only one. -/
theorem sortPairs_eq_of_perm {pairs pairs' : List (String × Binary64)} (hnames : (pairs.map (·.1)).Nodup) (h : pairs.Perm pairs') :
    sortPairs pairs = sortPairs pairs' := by
  have hperm : (sortPairs pairs).Perm (sortPairs pairs') := ((sortPairs_perm pairs).trans h).trans (sortPairs_perm pairs').symm
  refine hperm.eq_of_pairwise (fun a b ha hb hab hba => ?_) (pairwise_sortPairs pairs) (pairwise_sortPairs pairs')
  have hb' : b ∈ pairs := h.mem_iff.2 ((sortPairs_perm pairs').mem_iff.1 hb)
  exact List.inj_on_of_nodup_map hnames ((sortPairs_perm pairs).mem_iff.1 ha) hb' (String.le_antisymm hab hba)

/-- The thresholds by the names of their intents. -/
def named (pairs : List (Intent × Binary64)) : List (String × Binary64) := pairs.map (fun p => (p.1.name, p.2))

theorem named_sortThresholds (pairs : List (Intent × Binary64)) : named (sortThresholds pairs) = sortPairs (named pairs) :=
  List.map_mergeSort fun _ _ _ _ => rfl

/-- Known intents are found by their names. -/
theorem map_ofName_named {pairs : List (Intent × Binary64)} (h : ∀ p ∈ pairs, p.1.isKnown = true) :
    (named pairs).map (fun p => (Intent.ofName p.1, p.2)) = pairs := by
  rw [named, List.map_map]
  refine (List.map_congr_left fun p hp => ?_).trans (List.map_id pairs)
  rw [Function.comp_apply, Intent.ofName_name (h p hp), id]

theorem isKnown_of_checkThreshold {floor : Binary64} {entry : Intent × Binary64} (h : checkThreshold floor entry = .ok ()) :
    entry.1.isKnown = true := by
  cases hknown : entry.1.isKnown with
  | true => rfl
  | false => simp [checkThreshold, hknown] at h

theorem same_sorted (c : Config) : c.sorted.Same c :=
  ⟨rfl, rfl, sortThresholds_perm _, sortPairs_perm _, rfl, rfl, rfl⟩

theorem Valid.sorted (h : c.Valid) : c.sorted.Valid := by
  refine ⟨h.applied, h.thetaMin, ?_, ?_, h.tolerance, h.workers⟩
  · rw [forM_eq_ok_iff]
    intro e he
    exact forM_eq_ok_iff.1 h.thresholds e ((sortThresholds_perm _).mem_iff.1 he)
  · rw [forM_eq_ok_iff]
    intro e he
    exact forM_eq_ok_iff.1 h.minimums e ((sortPairs_perm _).mem_iff.1 he)

/-! ## Reading what is written -/

theorem Reader.Typed.form {α : Type} {read : Reader α} {write : α → Json} (h : read.Typed write) (place : String) (a : α) :
    read.form place (write a) = .value a := by
  rw [Reader.form, h.kept]

variable {readers : Readers} (hreaders : readers.Typed)
include hreaders

theorem readFloats_pairsJson (place : String) (pairs : List (String × Binary64)) :
    readFloats readers place (pairsJson pairs) = .value pairs := by
  simp only [pairsJson, readFloats]
  induction pairs with
  | nil => rfl
  | cons p pairs ih =>
    rw [List.map_cons, List.map_cons, Form.all, ih, hreaders.number.form]
    rfl

theorem readIntegers_ints (place : String) (ids : List Int) : readIntegers readers place (.arr (ids.map .int)) = .value ids := by
  have hitems : ∀ i, Form.all (readItems readers place i (ids.map .int)) = .value ids := by
    induction ids with
    | nil => exact fun i => rfl
    | cons id ids ih =>
      intro i
      rw [List.map_cons, readItems, Form.all, ih, hreaders.integer.form]
      rfl
  exact hitems 0

theorem readWeights_toJson (place : String) (w : Weights) : readWeights readers place (.obj [
      ("alpha", .float w.alpha), ("beta", .float w.beta), ("gamma", .float w.gamma), ("delta", .float w.delta)]) = .value (some w) := by
  simp only [readWeights, required, optional, List.lookup_cons]
  simp [hreaders.number.form, onlyKeys, Form.both, Form.map]

theorem readStaging_toJson (place : String) (s : Staging) : readStaging readers place (.obj [
      ("enabled", .bool s.enabled),
      ("stage_ids", .arr (s.stageIds.map .int)),
      ("process_ids", .arr (s.processIds.map .int)),
      ("phase_ids", .arr (s.phaseIds.map .int))]) =
    .value ⟨s.enabled, Staging.idSet s.stageIds, Staging.idSet s.processIds, Staging.idSet s.phaseIds⟩ := by
  simp only [readStaging, optional, List.lookup_cons]
  simp [readIntegers_ints hreaders, hreaders.truth.form, onlyKeys, Form.both, Form.map]

/-- The fields of a configuration that is written are its own. -/
theorem readFields_toJson (c : Config) : readFields readers c.toJson = .value {
    weights := some c.weights
    thetaMin := c.thetaMin
    intentThresholds := named (sortThresholds c.intentThresholds)
    componentMinimums := sortPairs c.componentMinimums
    staging := ⟨c.staging.enabled, Staging.idSet c.staging.stageIds, Staging.idSet c.staging.processIds,
      Staging.idSet c.staging.phaseIds⟩
    equivalenceTolerance := c.equivalenceTolerance
    maxWorkers := c.maxWorkers } := by
  simp only [toJson, readFields, optional, List.lookup_cons]
  simp [readStaging_toJson hreaders, readFloats_pairsJson hreaders, readWeights_toJson hreaders, hreaders.number.form,
    hreaders.integer.form, onlyKeys, keys, Form.both, Form.map, named]

/-- A valid configuration is read back with its maps in order. -/
theorem ofJsonWith_toJson (hsets : c.staging.Ascending) (h : c.validate = .ok ()) :
    ofJsonWith readers c.toJson = .ok c.sorted := by
  have hvalid := valid_of_validate h
  have hweights : Weights.make? c.weights.alpha c.weights.beta c.weights.gamma c.weights.delta = .ok c.weights := by
    rw [Weights.make?, hvalid.weights, ok_bind]
    rfl
  have hthresholds : (sortPairs (named (sortThresholds c.intentThresholds))).map (fun p => (Intent.ofName p.1, p.2)) =
      sortThresholds c.intentThresholds := by
    rw [named_sortThresholds, sortPairs_sortPairs, ← named_sortThresholds]
    refine map_ofName_named fun p hp => ?_
    exact isKnown_of_checkThreshold (forM_eq_ok_iff.1 hvalid.thresholds p ((sortThresholds_perm _).mem_iff.1 hp))
  have hstaging : (⟨c.staging.enabled, Staging.idSet c.staging.stageIds, Staging.idSet c.staging.processIds,
      Staging.idSet c.staging.phaseIds⟩ : Staging) = c.staging := by
    rw [Staging.idSet_of_ascending hsets.stageIds, Staging.idSet_of_ascending hsets.processIds,
      Staging.idSet_of_ascending hsets.phaseIds]
  have hsorted : c.sorted.validate = .ok () := validate_eq_ok_iff.2 hvalid.sorted
  rw [ofJsonWith, readFields_toJson hreaders]
  simp only [ofFields, hweights, hthresholds, hstaging, sortPairs_sortPairs, ok_bind]
  change (c.sorted.validate >>= fun _ => .ok c.sorted) = .ok c.sorted
  rw [hsorted, ok_bind]

omit hreaders in
/-- A configuration is written in the same way when its maps are in order. -/
theorem toJson_sorted (c : Config) : c.sorted.toJson = c.toJson := by
  have hthresholds : named (sortThresholds (sortThresholds c.intentThresholds)) = named (sortThresholds c.intentThresholds) := by
    rw [named_sortThresholds, named_sortThresholds, sortPairs_sortPairs]
  rw [named, named] at hthresholds
  simp only [toJson, sorted, hthresholds, sortPairs_sortPairs]

end Config

end TokenForest
