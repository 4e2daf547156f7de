import TokenForest.Binary64.Exact
import TokenForest.Survey

/-!
# Sessions

A session asks for confidences, resolutions and surveys of one grid, under any configurations and grammars, with one table of
confidences in between.
-/

namespace TokenForest

namespace Session

/-- A step of a session: the confidence of a cell's own symbol, a resolution, a survey or a unit of one, or forgetting the table. -/
inductive Step where
  | confidence (config : Config) (grammar : Grammar) (p : Position)
  | resolution (config : Config) (grammar : Grammar) (p : Position)
  | survey (config : Config) (grammar : Grammar)
  | scan (config : Config) (grammar : Grammar) (unit : Lane × Nat)
  | settlement (config : Config) (grammar : Grammar) (flagged : List Position)
  | forget

/-- What a step answers. -/
inductive Answer where
  | confidence (b : Except Fault Breakdown)
  | resolution (r : Except Fault Resolution)
  | survey (s : Except Fault Survey)
  | scan (s : Except Fault RowSurvey)
  | settlement (ds : Except Fault (List Decision))
  | forgotten

/-- Runs a computation with a table: the answer that its result makes, and the table that it leaves. -/
def answering {α : Type} (answer : Except Fault α → Answer) (x : Evaluating α) (memo : Memo) : Answer × Memo :=
  (answer (x.run.run memo).1, (x.run.run memo).2)

/-- The confidence of the symbol in the cell of a position. -/
def cellConfidence (c : Context) (p : Position) : Evaluating Breakdown := do
  let s ← Evaluating.lift (c.symbolAt p)
  c.evaluate s p

/-- Performs a step with a table. -/
def perform (grid : Grid) (memo : Memo) : Step → Answer × Memo
  | .confidence config grammar p => answering .confidence (cellConfidence (.standard grid config grammar) p) memo
  | .resolution config grammar p => answering .resolution (Resolution.resolve (.standard grid config grammar) p) memo
  | .survey config grammar => answering .survey (Survey.run (.standard grid config grammar) .never) memo
  | .scan config grammar unit => answering .scan (Survey.surveyRow (.standard grid config grammar) false unit) memo
  | .settlement config grammar flagged =>
    answering .settlement (Survey.settleRow (.standard grid config grammar) false flagged) memo
  | .forget => (.forgotten, memo.clear)

/-- The table that some steps leave. -/
def tableAfter (grid : Grid) (memo : Memo) (steps : List Step) : Memo := steps.foldl (fun memo step => (perform grid memo step).2) memo

/-- The answers of some steps, each performed with the table that the one before leaves. -/
def answers (grid : Grid) : Memo → List Step → List Answer
  | _, [] => []
  | memo, step :: rest => (perform grid memo step).1 :: answers grid (perform grid memo step).2 rest

/-- The result of a survey without a deadline after some steps of a session. -/
def surveyAfter (grid : Grid) (steps : List Step) (config : Config) (grammar : Grammar) : Except Fault Survey :=
  ((Survey.run (.standard grid config grammar) .never).run.run (tableAfter grid .empty steps)).1

/-- The result of a resolution after some steps of a session. -/
def resolutionAfter (grid : Grid) (steps : List Step) (config : Config) (grammar : Grammar) (p : Position) : Except Fault Resolution :=
  ((Resolution.resolve (.standard grid config grammar) p).run.run (tableAfter grid .empty steps)).1

/-- A survey comes to an end with one decision on every position in order, or stops at a reading whose hint is not on the list. -/
def Concludes (c : Context) (result : Except Fault Survey) : Prop :=
  (∃ survey, result = .ok survey ∧ survey.decisions.map (·.position) = c.grid.positions) ∨
    ∃ fault, result = .error fault ∧ c.Misread fault

end Session

namespace Context

/-- The stored confidences are settled, and those under the names of the symbols of the cells are their own. -/
structure Credible (c : Context) (memo : Memo) : Prop where
  settled : ∀ e ∈ memo.entries, e.2.psi.Settled
  own : ∀ w p s b, c.weights = .ok w → c.grid.symbolAt? p = some s → memo.get? (c.key w s p) = some b → c.breakdownWith w s p = .ok b

end Context

end TokenForest
