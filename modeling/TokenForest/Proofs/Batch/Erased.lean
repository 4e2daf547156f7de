import TokenForest.Proofs.Assembly.Erased
import TokenForest.Proofs.Batch.Accounts
import TokenForest.Proofs.Forest.Erased
import TokenForest.Proofs.Outcomes
import TokenForest.Proofs.Survey.Alike
import TokenForest.Report

/-!
# Reports on erased symbols

A report shows the lexemes and tags of symbols, and nothing else of them. So a survey with other parts of its symbols erased has the
same report.
-/

namespace TokenForest

/-- A batch with the symbols of its forests and decisions erased. -/
def Batch.erase (f : Symbol → Symbol) (b : Batch) : Batch :=
  { b with forest := b.forest.erase f, survey := b.survey.erase f, merge := b.merge.map (Forest.Merged.erase f) }

variable {staging : Staging} (e : Erasure staging)

/-! ## Decisions -/

theorem typeTag_map_erase (s : Option Symbol) : (s.map e.erase).map (·.typeTag) = s.map (·.typeTag) := by
  cases s <;> simp [e.typeTag]

theorem lexeme_map_erase (s : Option Symbol) : (s.map e.erase).map (·.lexeme) = s.map (·.lexeme) := by
  cases s <;> simp [e.lexeme]

namespace Batch

/-- A run is named by positions, states and tags. -/
theorem runName_erase (decisions : List Decision) : runName (decisions.map (Decision.erase e.erase)) = runName decisions := by
  have hpart : ∀ d, runPart (Decision.erase e.erase d) = runPart d := by
    rintro ⟨_, _, symbol⟩
    cases symbol <;> simp [runPart, Decision.erase, e.typeTag]
  unfold runName runText
  rw [List.map_map]
  simp only [Function.comp_def, hpart]

theorem reviewEntries_erase (decisions : List Decision) :
    reviewEntries (decisions.map (Decision.erase e.erase)) = reviewEntries decisions := by
  unfold reviewEntries
  rw [List.filter_map, List.map_map]
  apply List.map_congr_left
  intro d _
  simp [Decision.erase, e.lexeme, e.typeTag]

end Batch

namespace Report

theorem decisionJson_erase (d : Decision) : decisionJson (d.erase e.erase) = decisionJson d := by
  unfold decisionJson Decision.erase
  simp only [typeTag_map_erase, e.lexeme, e.typeTag]

theorem statusCounts_erase (f : Symbol → Symbol) (decisions : List Decision) :
    statusCounts (decisions.map (Decision.erase f)) = statusCounts decisions := by
  have hnames : (decisions.map (Decision.erase f)).map (·.status.name) = decisions.map (·.status.name) := List.map_map
  unfold statusCounts
  rw [hnames]

/-! ## Forests -/

theorem treesJson_eq (ts : List SyntaxTree) : treesJson ts = ts.map treeJson := by
  induction ts with
  | nil => rfl
  | cons t ts ih => rw [treesJson, ih, List.map_cons]

theorem treeJson_erase (t : SyntaxTree) : treeJson (t.erase e.erase) = treeJson t := by
  induction t with
  | node info children ih =>
    have hchildren : treesJson (children.map (SyntaxTree.erase e.erase)) = treesJson children := by
      rw [treesJson_eq, treesJson_eq, List.map_map]
      exact List.map_congr_left ih
    rw [SyntaxTree.erase_node, treeJson, treeJson, hchildren]
    simp only [NodeInfo.erase, lexeme_map_erase, typeTag_map_erase]

theorem forestJson_erase (g : Forest) : forestJson (g.erase e.erase) = forestJson g := by
  have htrees : treesJson (g.erase e.erase).trees = treesJson g.trees := by
    rw [treesJson_eq, treesJson_eq, Forest.trees_erase, List.map_map]
    exact List.map_congr_left fun t _ => treeJson_erase e t
  unfold forestJson
  rw [htrees, Forest.count_erase]

/-! ## Batches -/

/-- The report of an erased batch is the report of the batch. -/
theorem batchJson_erase (b : Batch) : batchJson (b.erase e.erase) = batchJson b := by
  have hdecisions : (b.survey.decisions.map (Decision.erase e.erase)).map decisionJson = b.survey.decisions.map decisionJson := by
    rw [List.map_map]
    exact List.map_congr_left fun d _ => decisionJson_erase e d
  have hbefore : (b.merge.map (Forest.Merged.erase e.erase)).map (fun m => (m.before : Int)) = b.merge.map (fun m => (m.before : Int)) :=
    Option.map_map _ _ _
  have hclasses : (b.merge.map (Forest.Merged.erase e.erase)).map (fun m => (m.classes.length : Int)) =
      b.merge.map (fun m => (m.classes.length : Int)) := Option.map_map _ _ _
  have hexpired : (b.survey.erase e.erase).deadlineExpired = b.survey.deadlineExpired := List.any_map
  unfold batchJson Batch.erase
  simp only [hexpired]
  unfold Survey.erase statusCountsJson
  simp only [Batch.runName_erase, forestJson_erase, hdecisions, statusCounts_erase, Forest.count_erase, hbefore, hclasses]
  rfl

end Report

namespace Batch

variable (grammar : Grammar)

/-- An erased survey of an erased grid makes the erased batch. -/
theorem ofSurvey_erase (survey : Survey) (grid : Grid) (tolerance : Option Binary64) :
    ofSurvey (survey.erase e.erase) (grid.erase e.erase) grammar tolerance =
      (ofSurvey survey grid grammar tolerance).map (Batch.erase e.erase) := by
  have hmerge : ∀ g : Forest, tolerance.mapM (g.erase e.erase).merge = (tolerance.mapM g.merge).map (Option.map (Forest.Merged.erase e.erase)) := by
    intro g
    cases tolerance with
    | none => rfl
    | some t =>
      change some <$> (g.erase e.erase).merge t = (some <$> g.merge t).map _
      rw [Forest.merge_erase]
      cases g.merge t <;> rfl
  rw [ofSurvey_eq, ofSurvey_eq]
  unfold ofAssembly
  simp only [Survey.erase, Assembly.ofDecisions_erase, Assembly.erase, Forest.ofTrees_erase, reviewEntries_erase, hmerge]
  cases tolerance.mapM (Forest.ofTrees (Assembly.ofDecisions survey.decisions grid grammar).roots).merge with
  | error fault => rfl
  | ok merge => cases merge <;> rfl

end Batch

end TokenForest
