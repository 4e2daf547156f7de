import Mathlib.Algebra.GroupWithZero.Nat
import Mathlib.Data.List.Forall2
import TokenForest.Binary64.Exact
import TokenForest.Survey

/-!
# Outcomes of surveys

What the decisions and the profiles of a survey say of its grid, and surveys that are compared: with one cut short by a deadline, with
one under a stricter configuration, and with one of a grid in which a score is higher.
-/

namespace TokenForest

namespace Survey

/-! ## Decisions -/

/-- What the fields of a decision say of each other, of its symbol and of the reading in its place. -/
structure Consistent (c : Context) (d : Decision) : Prop where
  original : c.grid.symbolAt? d.position = some d.original
  threshold : d.status ≠ .notProcessed → d.threshold = c.config.threshold (c.intentAt d.position)
  accepted : d.status = .accepted → d.psi = d.finalPsi ∧ d.threshold ≤ d.finalPsi
  resolved : d.status = .resolved → d.psi ≤ d.bestConfidence ∧ d.finalPsi ≤ d.bestConfidence ∧ ∃ s, d.symbol = some s ∧
    c.config.threshold (c.intentAs d.position s) ≤ d.finalPsi ∧
    Intents.compatible c.grammar (c.intentAt d.position) (c.intentAs d.position s) = true ∧
    (c.intentAs d.position s = c.intentAt d.position → d.threshold ≤ d.finalPsi)
  review : d.status = .manualReview → d.psi ≤ d.bestConfidence
  flagged : d.status = .resolved ∨ d.status = .manualReview → ∃ b, c.breakdown d.original d.position = .ok b ∧ d.psi = b.psi ∧
    (d.psi < d.threshold ∨ ∃ m ∈ c.config.componentMinimums, b.components.value m.1 < m.2)

/-- The decision reports the confidence of the symbol in its cell. -/
structure Measured (c : Context) (d : Decision) : Prop where
  original : c.grid.symbolAt? d.position = some d.original
  psi : ∃ b, c.breakdown d.original d.position = .ok b ∧ d.psi = b.psi

/-- A survey has one decision on a position, which accepts a symbol with a confidence. -/
def AcceptsAt (survey : Survey) (p : Position) (s : Symbol) (psi : Binary64) : Prop :=
  ∃ d, survey.decisions.filter (fun d => decide (d.position = p)) = [d] ∧ d.status = .accepted ∧ d.symbol = some s ∧
    d.psi = psi ∧ d.finalPsi = psi

/-- The decisions on the positions of a row. -/
def rowDecisions (survey : Survey) (lane : Lane) (row : Nat) : List Decision :=
  survey.decisions.filter (fun d => decide (d.position.row = row) && decide (d.position.lane = lane))

end Survey

/-- The lane and the row of a scan. -/
def RowSurvey.unit (s : RowSurvey) : Lane × Nat := (s.profile.lane, s.profile.row)

namespace Survey

open Evaluating

/-! ## Rows -/

/-- The scans of the rows of a survey. -/
def scanRows (c : Context) (deadline : Deadline) : Evaluating (List RowSurvey) :=
  runAll ((numbered 0 (units c.grid)).map (fun e => surveyRow c (deadline e.1) e.2))

/-- The decisions of a survey that scans some rows in their order and resolves the scans in an arrangement. -/
def decideIn (c : Context) (rows : List (Lane × Nat)) (arrange : List RowSurvey → List RowSurvey) : Evaluating (List Decision) := do
  let scans ← runAll (rows.map (surveyRow c false))
  let resolved ← runAll ((arrange scans).map (fun s => settleRow c false s.flagged))
  return inOrder (scans.flatMap (·.decisions) ++ resolved.flatten)

/-- A row is suspect by its mean as it is computed, of as many symbols as a machine can count, or it is processed and suspect by the exact
mean of its confidences, of any number of symbols. -/
inductive Suspect (c : Context) (survey : Survey) (profile : RowProfile) : Prop where
  | computed (hsuspect : profile.suspect = true) (hcount : profile.symbolCount < 2 ^ 64)
  | exact (hprocessed : profile.processed = true)
      (hmean : Binary64.exactMean ((survey.rowDecisions profile.lane profile.row).map (·.psi)) < c.config.thetaMin)

/-- A row has work for the resolver: it has been scanned, a symbol with a confidence below the general threshold is not accepted, and
there is one unit of flagged positions for the row, with that of the symbol. -/
structure HasWork (c : Context) (survey : Survey) (scans : List RowSurvey) (profile : RowProfile) : Prop where
  processed : profile.processed = true
  low : ∃ d ∈ survey.rowDecisions profile.lane profile.row, Measured c d ∧ d.psi < c.config.thetaMin ∧ d.status ≠ .accepted ∧
    ∃ s ∈ pending scans, s.profile = profile ∧ d.position ∈ s.flagged
  unit : ((pending scans).map (·.unit)).count (profile.lane, profile.row) = 1

/-! ## Surveys that are cut short -/

/-- The row of the position is scanned before a deadline that expires after a number of checks. -/
def InTime (grid : Grid) (checks : Nat) (p : Position) : Prop := (p.lane, p.row) ∈ (units grid).take checks

/-- What a survey whose deadline expires after some checks has in place of a decision that is made without a deadline: this decision,
or none, with a confidence of zero where the row was not scanned in time and with the confidence that is found without a deadline
where it was. -/
inductive Replaces (grid : Grid) (checks : Nat) (d d' : Decision) : Prop where
  | same (h : d = d')
  | unscanned (hstatus : d.status = .notProcessed) (hrow : ¬InTime grid checks d.position) (hpsi : d.psi = 0)
  | unresolved (hstatus : d.status = .notProcessed) (hrow : InTime grid checks d.position) (hpsi : d.psi = d'.psi)

/-- What a survey whose deadline expires after some checks has to do with the survey without a deadline. -/
structure CutShort (c : Context) (checks : Nat) (full survey : Survey) : Prop where
  positions : survey.decisions.map (·.position) = c.grid.positions
  decisions : ∀ d ∈ survey.decisions, ∃ d' ∈ full.decisions, d'.position = d.position ∧ Replaces c.grid checks d d'
  expired : survey.deadlineExpired = true ↔ ∃ d ∈ survey.decisions, d.status = .notProcessed

/-- The survey leaves the position unprocessed. -/
def Unprocessed (survey : Survey) (p : Position) : Prop := ∃ d ∈ survey.decisions, d.position = p ∧ d.status = .notProcessed

/-! ## Stricter surveys -/

/-- One survey decides at least as strictly as another one. -/
structure StricterThan (tight lax : Survey) : Prop where
  accepted : ∀ d ∈ tight.decisions, d.status = .accepted → ∃ d' ∈ lax.decisions, d'.position = d.position ∧ d'.status = .accepted
  review : ∀ d ∈ lax.decisions, d.status = .manualReview → ∃ d' ∈ tight.decisions, d'.position = d.position ∧ d'.status = .manualReview
  flagged : lax.flaggedCount ≤ tight.flaggedCount

end Survey

/-! ## Better decisions -/

/-- The states of a decision on a position that is processed, the worst first. -/
def Status.processed : List Status := [.manualReview, .resolved, .accepted]

/-- A position is processed in both states, and the second one is no worse. -/
structure Status.NoWorse (a b : Status) : Prop where
  before : a ∈ processed
  after : b ∈ processed
  order : processed.idxOf a ≤ processed.idxOf b

/-- A decision is no worse than another one. Where a flagged symbol is accepted now, its best confidence is its own. -/
structure Decision.Improves (d d' : Decision) : Prop where
  psi : d.psi ≤ d'.psi
  status : d.status.NoWorse d'.status
  best : d.bestConfidence ≤ d'.bestConfidence ∨ d.status ≠ .accepted ∧ d'.status = .accepted ∧ d'.bestConfidence = d'.psi

namespace Survey

/-- Decisions on the same positions, the same everywhere but on one, where the second one is no worse. -/
def ImprovesAt (p : Position) (ds ds' : List Decision) : Prop :=
  List.Forall₂ (fun d d' => d.position = d'.position ∧ (d.position ≠ p → d = d') ∧ (d.position = p → d.Improves d')) ds ds'

end Survey

/-! ## Other means -/

/-- The same row, with another mean perhaps. -/
structure RowProfile.SameRow (p p' : RowProfile) : Prop where
  lane : p.lane = p'.lane
  row : p.row = p'.row
  symbolCount : p.symbolCount = p'.symbolCount
  processed : p.processed = p'.processed

namespace Survey

/-- What two surveys with different averages have in common. -/
structure SameDecisions (s s' : Survey) : Prop where
  decisions : s.decisions = s'.decisions
  columnProfiles : s.columnProfiles = s'.columnProfiles
  laneBalances : s.laneBalances = s'.laneBalances
  rowProfiles : List.Forall₂ RowProfile.SameRow s.rowProfiles s'.rowProfiles

end Survey

end TokenForest
