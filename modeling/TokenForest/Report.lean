import TokenForest.Batch

/-!
# Reports

The JSON form of forests and of batch results. Objects list their members in a fixed order.
-/

namespace TokenForest

namespace Report

/-- The rule by which inner nodes get their confidence. -/
def aggregateRule : String := "min_of_children"

/-- An optional position with its row, column and lane. -/
def positionJson : Option Position → Json
  | none => .null
  | some p => .obj [
      ("row", .int p.row),
      ("column", .int p.column),
      ("process", .ofInt? (p.lane.map Int.ofNat))]

mutual

/-- A tree of nodes. -/
def treeJson : SyntaxTree → Json
  | .node info children =>
    .obj [
      ("node_id", .str info.id),
      ("kind", .str info.kind.name),
      ("label", .str info.label),
      ("intent", .str info.intent.name),
      ("confidence", .float info.confidence),
      ("position", positionJson info.position),
      ("lexeme", .ofStr? (info.symbol.map (·.lexeme))),
      ("type_tag", .ofStr? (info.symbol.map (·.typeTag))),
      ("children", .arr (treesJson children))]

/-- Some trees. -/
def treesJson : List SyntaxTree → List Json
  | [] => []
  | t :: rest => treeJson t :: treesJson rest

end

/-- A forest: every root unfolded, and the number of different nodes. -/
def forestJson (f : Forest) : Json :=
  .obj [
    ("aggregate_rule", .str aggregateRule),
    ("unique_node_count", .int f.count),
    ("roots", .arr (treesJson f.trees))]

/-- A position excluded from the forest. -/
def reviewJson (e : ReviewEntry) : Json :=
  .obj [
    ("position", positionJson (some e.position)),
    ("lexeme", .str e.lexeme),
    ("type_tag", .str e.typeTag),
    ("best_confidence", .float e.bestConfidence),
    ("reason_codes", .strings (e.reasonCodes.map (·.name)))]

/-- A node left out of the forest. -/
def mismatchJson (m : Mismatch) : Json :=
  .obj [
    ("node_id", .str m.nodeId),
    ("position", positionJson m.position),
    ("intent", .str m.intent.name),
    ("parent_id", .str m.parentId),
    ("parent_intent", .ofStr? (m.parentIntent.map (·.name)))]

/-- Components by name; none for a position without them. -/
def componentsJson : Option Components → Json
  | none => .obj []
  | some c => .obj ((Config.sortPairs c.named).map (fun p => (p.1, .float p.2)))

/-- A decision. -/
def decisionJson (d : Decision) : Json :=
  .obj [
    ("position", .str d.position.label),
    ("lexeme", .str d.original.lexeme),
    ("status", .str d.status.name),
    ("type_tag", .str ((d.symbol.map (·.typeTag)).getD d.original.typeTag)),
    ("psi", .float d.psi),
    ("final_psi", .float d.finalPsi),
    ("threshold", .float d.threshold),
    ("components", componentsJson d.components),
    ("reason_codes", .strings (d.reasonCodes.map (·.name)))]

/-- A lane. -/
def laneJson (lane : Lane) : Json := .ofInt? (lane.map Int.ofNat)

/-- The profile of a row. -/
def rowJson (r : RowProfile) : Json :=
  .obj [
    ("lane", laneJson r.lane),
    ("row", .int r.row),
    ("mean_confidence", .float r.meanConfidence),
    ("symbol_count", .int r.symbolCount),
    ("suspect", .bool r.suspect),
    ("processed", .bool r.processed)]

/-- The profile of a column. -/
def columnJson (c : ColumnProfile) : Json :=
  .obj [
    ("lane", laneJson c.lane),
    ("column", .int c.column),
    ("max_depth", .int c.maxDepth),
    ("final_depth", .int c.finalDepth),
    ("balanced", .bool c.balanced)]

/-- How many decisions have each state, in order of the names of the states. -/
def statusCounts (decisions : List Decision) : List (String × Nat) :=
  let names := decisions.map (·.status.name)
  (names.eraseDups.mergeSort (fun a b => decide (a ≤ b))).map (fun name => (name, names.count name))

/-- How many decisions have each state. -/
def statusCountsJson (decisions : List Decision) : Json :=
  .obj ((statusCounts decisions).map (fun p => (p.1, .int p.2)))

/-- The result of a batch. -/
def batchJson (b : Batch) : Json :=
  .obj [
    ("run_id", .str (Batch.runName b.survey.decisions)),
    ("bridge_version", .str Batch.version),
    ("aggregate_rule", .str aggregateRule),
    ("forest", forestJson b.forest),
    ("manual_review", .arr (b.manualReview.map reviewJson)),
    ("intent_mismatches", .arr (b.mismatches.map mismatchJson)),
    ("decisions", .arr (b.survey.decisions.map decisionJson)),
    ("diagnostics", .obj [
      ("status_counts", statusCountsJson b.survey.decisions),
      ("suspect_rows", .arr (b.survey.suspectRows.map (fun r => .obj [("lane", laneJson r.1), ("row", .int r.2)]))),
      ("row_profiles", .arr (b.survey.rowProfiles.map rowJson)),
      ("column_profiles", .arr (b.survey.columnProfiles.map columnJson)),
      ("deadline_expired", .bool b.survey.deadlineExpired),
      ("node_count", .int b.forest.count),
      ("node_count_before_minimization", .ofInt? (b.merge.map (fun m => (m.before : Int)))),
      ("equivalence_classes", .int ((b.merge.map (fun m => m.classes.length)).getD 0)),
      ("warnings", .strings b.warnings)])]

end Report

end TokenForest
