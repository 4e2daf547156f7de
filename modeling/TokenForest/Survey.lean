import TokenForest.Binary64.Aggregate
import TokenForest.Resolution
import TokenForest.Survey.Balance

/-!
# Surveying a grid

Every position gets a decision. First each row is scanned: a symbol whose confidence reaches the threshold of its intent
is accepted, the others are flagged. Then the flagged symbols are resolved row by row, the rows with a low mean first. A
deadline is asked once before each row and once before each row of flagged symbols; what is not started in time stays
unprocessed.
-/

namespace TokenForest

/-- The answer to each check of a deadline, by the number of the check: whether it has expired. -/
abbrev Deadline := Nat → Bool

namespace Deadline

/-- There is no deadline. -/
def never : Deadline := fun _ => false

/-- The deadline is past from the start. -/
def past : Deadline := fun _ => true

/-- The deadline expires after a number of checks. -/
def after (checks : Nat) : Deadline := fun i => decide (checks ≤ i)

/-- The time in milliseconds before which no run comes to its first check. -/
def firstCheck : Binary64 := 0.05

/-- The deadline of a time budget in milliseconds: past when the budget is over before the first check; any other budget
is taken not to run out. -/
def ofBudget (ms : Option Binary64) : Deadline :=
  match ms with
  | some x => if x ≤ firstCheck then past else never
  | none => never

end Deadline

/-- What the scan of a row found. -/
structure RowProfile where
  lane : Lane
  row : Nat
  meanConfidence : Binary64
  symbolCount : Nat
  suspect : Bool
  processed : Bool
  deriving DecidableEq, Repr

/-- The scan of a row: its profile, the decisions already made, and the positions that are flagged. -/
structure RowSurvey where
  profile : RowProfile
  decisions : List Decision
  flagged : List Position

/-- The decisions of a grid in source order, with the profiles of its rows, columns and lanes. -/
structure Survey where
  decisions : List Decision
  rowProfiles : List RowProfile
  columnProfiles : List ColumnProfile
  laneBalances : List LaneBalance
  deriving DecidableEq

namespace Survey

/-- Some position was not processed in time. -/
def deadlineExpired (s : Survey) : Bool := s.decisions.any (fun d => decide (d.status = .notProcessed))

/-- The number of symbols that went to be resolved. -/
def flaggedCount (s : Survey) : Nat :=
  s.decisions.countP (fun d => decide (d.status = .resolved) || decide (d.status = .manualReview))

/-- The rows with a low mean. -/
def suspectRows (s : Survey) : List (Lane × Nat) :=
  (s.rowProfiles.filter (·.suspect)).map (fun r => (r.lane, r.row))

/-! ## Scanning rows -/

/-- The confidence of the symbol at an index of a row, with its decision when it is accepted. -/
def judge (c : Context) (row : List Symbol) (entry : Nat × Position × Symbol) :
    Evaluating (Binary64 × Except Position Decision) := do
  let (index, p, s) := entry
  let b ← c.evaluate s p
  let intent ← Evaluating.lift (Intents.classify? c.grammar row index)
  let threshold := c.config.threshold intent
  if threshold ≤ b.psi ∧ b.components.reaches c.config.componentMinimums then
    return (b.psi, .ok (Decision.accept p s b threshold))
  else
    return (b.psi, .error p)

/-- The mean of the confidences of a row to six places, as it is computed by a function; zero for none. -/
def meanBy (average : List Binary64 → Binary64) (psis : List Binary64) : Binary64 := if psis.isEmpty then 0 else (average psis).roundSix

/-- The mean of the confidences of a row to six places; zero for none. -/
def meanOf (psis : List Binary64) : Binary64 := meanBy Binary64.mean psis

/-- The accepted decisions of judged symbols. -/
def accepted (judged : List (Binary64 × Except Position Decision)) : List Decision :=
  judged.filterMap (fun j => j.2.toOption)

/-- The flagged positions of judged symbols. -/
def flagged (judged : List (Binary64 × Except Position Decision)) : List Position :=
  judged.filterMap fun j => match j.2 with
    | .error p => some p
    | .ok _ => none

/-- A row that was not started in time. -/
def unscanned (lane : Lane) (row : Nat) (cells : List (Position × Symbol)) : RowSurvey where
  profile := ⟨lane, row, 0, cells.length, false, false⟩
  decisions := cells.map (fun cell => Decision.skip cell.1 cell.2 0)
  flagged := []

/-- The scan of a row whose symbols have been judged. -/
def scannedBy (average : List Binary64 → Binary64) (c : Context) (lane : Lane) (row : Nat)
    (judged : List (Binary64 × Except Position Decision)) : RowSurvey :=
  let mean := meanBy average (judged.map (·.1))
  { profile := ⟨lane, row, mean, judged.length, decide (mean < c.config.thetaMin), true⟩
    decisions := accepted judged
    flagged := flagged judged }

/-- Scans a row, unless the deadline has expired. -/
def surveyRowBy (average : List Binary64 → Binary64) (c : Context) (expired : Bool) (unit : Lane × Nat) : Evaluating RowSurvey := do
  let ps := c.grid.rowPositions unit.1 unit.2
  let symbols ← Evaluating.lift (c.grid.symbolsAt ps)
  let cells := ps.zip symbols
  if expired then return unscanned unit.1 unit.2 cells
  let judged ← (cells.zipIdx.map (fun e => (e.2, e.1))).mapM (judge c symbols)
  return scannedBy average c unit.1 unit.2 judged

/-- Scans a row, with its mean by the pairwise sum. -/
def surveyRow (c : Context) (expired : Bool) (unit : Lane × Nat) : Evaluating RowSurvey := surveyRowBy Binary64.mean c expired unit

/-! ## Resolving flagged symbols -/

/-- The decision on a flagged position that has been resolved. -/
def settle (c : Context) (p : Position) (s : Symbol) (original : Breakdown) (r : Resolution) : Decision :=
  let threshold := c.config.threshold r.originalIntent
  match r.chosen with
  | some (chosen, final) => Decision.resolve p s chosen original final threshold r.bestConfidence
  | none => Decision.review p s original threshold r.bestConfidence r.reasonCodes

/-- The decision on a flagged position; unprocessed when its row was not started in time. -/
def resolvePosition (c : Context) (expired : Bool) (p : Position) : Evaluating Decision := do
  let s ← Evaluating.lift (c.symbolAt p)
  let original ← c.evaluate s p
  if expired then return Decision.skip p s original.psi
  let r ← Resolution.resolve c p
  return settle c p s original r

/-- The decisions on the flagged positions of a row. -/
def settleRow (c : Context) (expired : Bool) (flagged : List Position) : Evaluating (List Decision) :=
  flagged.mapM (resolvePosition c expired)

/-! ## The survey -/

/-- The rows of a grid, lane by lane. -/
def units (grid : Grid) : List (Lane × Nat) := grid.lanes.flatMap (fun lane => (grid.rows lane).map (lane, ·))

/-- The scans with flagged positions, the suspect rows first. -/
def pending (scans : List RowSurvey) : List RowSurvey :=
  let waiting := scans.filter (fun s => !s.flagged.isEmpty)
  waiting.filter (·.profile.suspect) ++ waiting.filter (fun s => !s.profile.suspect)

/-- The decisions of some rows in source order. -/
def inOrder (decisions : List Decision) : List Decision := decisions.mergeSort (fun a b => a.position.le b.position)

/-- The first position with more than one decision. -/
def decidedTwice? : List Decision → Option Position
  | [] => none
  | d :: rest => if rest.any (fun e => decide (e.position = d.position)) then some d.position else decidedTwice? rest

/-- Each unit with the number of its deadline check, from a number on. -/
def numbered {α : Type} (start : Nat) (units : List α) : List (Nat × α) := units.zipIdx.map (fun e => (start + e.2, e.1))

/-- Surveys a grid, with the means of rows by a function. -/
def runBy (average : List Binary64 → Binary64) (c : Context) (deadline : Deadline) : Evaluating Survey := do
  Evaluating.lift (c.config.validate.mapError .config)
  let rows := units c.grid
  let scans ← Evaluating.runAll ((numbered 0 rows).map (fun e => surveyRowBy average c (deadline e.1) e.2))
  let resolved ← Evaluating.runAll
    ((numbered rows.length (pending scans)).map (fun e => settleRow c (deadline e.1) e.2.flagged))
  let balances ← Evaluating.lift (c.grid.lanes.mapM (Balance.scanLane c.grid c.grammar))
  let decisions := scans.flatMap (·.decisions) ++ resolved.flatten
  match decidedTwice? decisions with
  | some p => Evaluating.lift (.error (.decidedTwice p))
  | none =>
    return {
      decisions := inOrder decisions
      rowProfiles := scans.map (·.profile)
      columnProfiles := balances.flatMap (·.1)
      laneBalances := balances.map (·.2) }

/-- Surveys a grid. -/
def run (c : Context) (deadline : Deadline) : Evaluating Survey := runBy Binary64.mean c deadline

/-- The cells of a row. -/
def rowCells (grid : Grid) (lane : Lane) (row : Nat) : List (Position × Symbol) :=
  (grid.rowPositions lane row).filterMap (fun p => (grid.symbolAt? p).map (p, ·))

end Survey

end TokenForest
