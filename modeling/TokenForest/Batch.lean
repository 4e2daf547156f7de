import TokenForest.Assembly.Checked
import TokenForest.Digest
import TokenForest.Forest.Merge
import TokenForest.Survey

/-!
# Running a batch

One batch from records to a forest: the configuration is validated, the records are placed, every position is decided, the
admitted symbols are assembled and equivalent nodes are merged. Only the configuration and the stream can stop a batch;
what goes wrong at a position or a node is part of the result.
-/

namespace TokenForest

/-- A position that is not in the forest, with the best confidence it reached. -/
structure ReviewEntry where
  position : Position
  lexeme : String
  typeTag : String
  bestConfidence : Binary64
  reasonCodes : List ReasonCode
  deriving DecidableEq

/-- The result of a batch. The merge is there when merging was asked for. -/
structure Batch where
  forest : Forest
  manualReview : List ReviewEntry
  mismatches : List Mismatch
  survey : Survey
  merge : Option Forest.Merged
  warnings : List String

namespace Batch

/-- The version of the report and of the run names. -/
def version : String := "symbridge_v1"

/-! ## Run names -/

/-- What a run name says about one decision: position, state and final tag. -/
def runPart (d : Decision) : String :=
  s!"{d.position.label}:{d.status.name}:" ++ (match d.symbol with
    | some s => s.typeTag
    | none => "-")

/-- The text that a run name is the digest of. -/
def runText (decisions : List Decision) : String := String.intercalate "|" (version :: decisions.map runPart)

/-- The name of a run: sixteen digits of the digest of its outcome. -/
def runName (decisions : List Decision) : String :=
  "sb_" ++ String.ofList ((Digest.sha1 (runText decisions).toUTF8.toList).hex.toList.take 16)

/-! ## Entries and warnings -/

/-- The positions that are excluded from the forest. -/
def reviewEntries (decisions : List Decision) : List ReviewEntry :=
  (decisions.filter (fun d => d.status.isExcluded)).map
    (fun d => ⟨d.position, d.original.lexeme, d.original.typeTag, d.bestConfidence, d.reasonCodes⟩)

/-- The name of a lane in a warning. -/
def laneName : Lane → String
  | none => "None"
  | some l => toString l

/-- The warning about a lane whose brackets do not balance. -/
def balanceWarning (b : LaneBalance) : String :=
  s!"unbalanced_structure:lane={laneName b.lane}:final_depth={b.finalDepth}"

/-- The warnings of the assembly and the survey, each once, in order. -/
def allWarnings (notes : Notes) (balances : List LaneBalance) : List String :=
  (notes.warnings ++ (balances.filter (fun b => !b.balanced)).map balanceWarning).eraseDups.mergeSort
    (fun a b => decide (a ≤ b))

/-! ## The run -/

/-- The result of an assembled forest, whose equivalent nodes are merged when a tolerance is given. -/
def ofAssembly (assembly : Assembly) (survey : Survey) (tolerance : Option Binary64) : Except Fault Batch := do
  let built := Forest.ofTrees assembly.roots
  let merge ← tolerance.mapM built.merge
  return {
    forest := (merge.map (·.forest)).getD built
    manualReview := reviewEntries survey.decisions
    mismatches := assembly.notes.mismatches
    survey
    merge
    warnings := allWarnings assembly.notes survey.laneBalances }

/-- The result of a surveyed grid. -/
def ofSurvey (survey : Survey) (grid : Grid) (grammar : Grammar) (tolerance : Option Binary64) : Except Fault Batch := do
  ofAssembly (← Assembly.build survey.decisions grid grammar) survey tolerance

/-- Runs a batch. -/
def run (records : List TokenRecord) (config : Config) (grammar : Grammar) (scorer : Scorer) (deadline : Deadline)
    (merging : Bool) : Except Fault Batch := do
  config.validate.mapError .config
  let grid ← (Grid.organize records config.staging.enabled grammar).mapError .grid
  let survey ← (Survey.run ⟨grid, config, grammar, scorer⟩ deadline).run .empty |>.1
  ofSurvey survey grid grammar (if merging then some config.equivalenceTolerance else none)

end Batch

end TokenForest
