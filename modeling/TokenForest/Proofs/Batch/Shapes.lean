import TokenForest.Proofs.Batch.Accounts
import TokenForest.Proofs.Evaluation.Rekeyed
import TokenForest.Proofs.Survey.Answers

/-!
# Shapes of lexemes and batches

What a batch comes to depends on the shapes of its grammar only through the lexemes of its stream: shapes that admit the same of these
give the same batch, whatever else they admit. So shapes stand for any patterns, since on a stream every pattern is the list of the
lexemes that it admits.
-/

namespace TokenForest

namespace Grammar

variable {g : Grammar} {shape shape' : Reading → LexemeShape} {patterns : Reading → String → Bool} {lexemes : List String}

theorem readingsOf_reshape (g : Grammar) (shape : Reading → LexemeShape) (c : SymbolClass) :
    (g.reshape shape).readingsOf c = (g.readingsOf c).map (reshapeReading shape) := by
  unfold readingsOf reshape
  rw [List.filter_map]
  rfl

theorem reading?_reshape (g : Grammar) (shape : Reading → LexemeShape) (c : SymbolClass) (typeTag : String) :
    (g.reshape shape).reading? c typeTag = (g.reading? c typeTag).map (reshapeReading shape) := by
  unfold reading? reshape
  rw [List.find?_map]
  rfl

/-- Hints are found by class and tag. -/
theorem hintOf?_reshape (g : Grammar) (shape : Reading → LexemeShape) (c : SymbolClass) (typeTag rawHint : String) :
    (g.reshape shape).hintOf? c typeTag rawHint = g.hintOf? c typeTag rawHint := by
  unfold hintOf?
  rw [reading?_reshape]
  cases g.reading? c typeTag <;> rfl

/-- A lexeme is recognized by the patterns. -/
theorem recognizes_reshape (h : g.Admits shape patterns lexemes) {lexeme : String} (hlexeme : lexeme ∈ lexemes) (c : SymbolClass)
    (typeTag : String) : (g.reshape shape).recognizes c typeTag lexeme = (g.reading? c typeTag).any (patterns · lexeme) := by
  unfold recognizes
  rw [reading?_reshape]
  cases hr : g.reading? c typeTag with
  | none => rfl
  | some r => exact h r (List.mem_of_find?_eq_some hr) lexeme hlexeme

/-- Any patterns have shapes that admit the same of some lexemes. -/
theorem admits_listed (g : Grammar) (patterns : Reading → String → Bool) (lexemes : List String) :
    g.Admits (listed patterns lexemes) patterns lexemes := by
  intro r _ lexeme hlexeme
  rw [Bool.eq_iff_iff, listed, LexemeShape.fits, List.contains_iff_mem, List.mem_filter]
  exact and_iff_right hlexeme

end Grammar

variable {g : Grammar} {shape shape' : Reading → LexemeShape} {patterns : Reading → String → Bool} {lexemes : List String}

/-! ## Grids -/

namespace Grid

theorem symbolOf_reshape (g : Grammar) (shape : Reading → LexemeShape) (number : Nat) (p : Position) (r : TokenRecord) :
    symbolOf (g.reshape shape) number p r = symbolOf g number p r := by
  unfold symbolOf
  rw [Grammar.hintOf?_reshape]

theorem organize_reshape (g : Grammar) (shape : Reading → LexemeShape) (records : List TokenRecord) (staged : Bool) :
    organize records staged (g.reshape shape) = organize records staged g := by
  have hplace : ∀ placed number r, place staged (g.reshape shape) placed number r = place staged g placed number r := by
    intro placed number r
    unfold place
    simp only [symbolOf_reshape]
  have hall : ∀ placed number, placeAll staged (g.reshape shape) placed number records = placeAll staged g placed number records := by
    induction records with
    | nil => exact fun _ _ => rfl
    | cons r records ih =>
      intro placed number
      rw [placeAll, placeAll, hplace]
      exact bind_congr fun cell => ih (cell :: placed) (number + 1)
  unfold organize
  rw [hall]

/-- Every symbol of a grid has the lexeme of a record. -/
theorem lexeme_mem_of_organize {records : List TokenRecord} {staged : Bool} {grid : Grid} (h : organize records staged g = .ok grid)
    {p : Position} {s : Symbol} (hs : grid.symbolAt? p = some s) : s.lexeme ∈ records.map (·.lexeme) := by
  obtain ⟨places, hlength, hcells, _, hplaces⟩ := organize_eq_ok h
  obtain ⟨k, hk, hcell⟩ := List.mem_iff_getElem.1 (hcells.mem_iff.1 (mem_cells_of_symbolAt? hs))
  have hsymbol := (hplaces k (by omega) hk).symbol
  rw [hcell] at hsymbol
  obtain ⟨_, _, hint, _, hsame⟩ := symbolOf_eq_ok_iff.1 hsymbol
  rw [show s.lexeme = _ from congrArg Symbol.lexeme hsame]
  exact List.mem_map_of_mem (List.getElem_mem _)

end Grid

/-! ## Surveys -/

/-- A context with the standard scorer, and two choices of shapes that admit what the same patterns admit of the lexemes in the grid. -/
structure Context.Reshaped (c : Context) (shape shape' : Reading → LexemeShape) (patterns : Reading → String → Bool)
    (lexemes : List String) : Prop where
  scorer : c.scorer = .standard
  admits : c.grammar.Admits shape patterns lexemes
  admits' : c.grammar.Admits shape' patterns lexemes
  lexemes : ∀ p s, c.grid.symbolAt? p = some s → s.lexeme ∈ lexemes

/-- The context with other shapes. -/
def Context.reshape (c : Context) (shape : Reading → LexemeShape) : Context := { c with grammar := c.grammar.reshape shape }

open Evaluating

variable {c : Context}

namespace Context.Reshaped

theorem breakdownWith_eq (h : c.Reshaped shape shape' patterns lexemes) {s : Symbol} (hs : s.lexeme ∈ lexemes) (p : Position)
    (w : Weights) : (c.reshape shape').breakdownWith w s p = (c.reshape shape).breakdownWith w s p := by
  have hlexical : Scoring.lexical s (c.grammar.reshape shape') = Scoring.lexical s (c.grammar.reshape shape) := by
    unfold Scoring.lexical
    rw [Grammar.recognizes_reshape h.admits hs, Grammar.recognizes_reshape h.admits' hs]
  have hbetween : ∀ left right, Scoring.componentsBetween s left right c.config.staging (c.grammar.reshape shape') =
      Scoring.componentsBetween s left right c.config.staging (c.grammar.reshape shape) := by
    intro left right
    unfold Scoring.componentsBetween
    rw [hlexical]
    rfl
  unfold breakdownWith reshape
  simp only [h.scorer, Scorer.standard, Scoring.standard, hbetween]

theorem evaluate (h : c.Reshaped shape shape' patterns lexemes) {s : Symbol} (hs : s.lexeme ∈ lexemes) (p : Position) :
    Matches (c.grammar.reshape shape) (c.grammar.reshape shape') ((c.reshape shape).evaluate s p) ((c.reshape shape').evaluate s p) := by
  have hmatches : Matches (c.reshape shape).grammar (c.reshape shape').grammar ((c.reshape shape).evaluate s p)
      ((c.reshape shape').evaluate s p) := matches_evaluate rfl rfl fun w => h.breakdownWith_eq hs p w
  exact hmatches

end Context.Reshaped

namespace Resolution

/-- The readings that patterns let a symbol have, whatever the shapes for the patterns are. -/
theorem arranged_reshape (h : g.Admits shape patterns lexemes) {s : Symbol} (hs : s.lexeme ∈ lexemes) (attested : List String) :
    arranged (g.reshape shape) s attested =
      (let fitting := (g.readingsOf s.symbolClass).filter (fun r => decide (r.typeTag ≠ s.typeTag) && patterns r s.lexeme)
      fitting.filter (fun r => attested.contains r.typeTag) ++ fitting.filter (fun r => !attested.contains r.typeTag)).map
        (Grammar.reshapeReading shape) := by
  have hfitting : ((g.reshape shape).readingsOf s.symbolClass).filter
        (fun r => decide (r.typeTag ≠ s.typeTag) && r.shape.fits s.lexeme) =
      ((g.readingsOf s.symbolClass).filter (fun r => decide (r.typeTag ≠ s.typeTag) && patterns r s.lexeme)).map
        (Grammar.reshapeReading shape) := by
    rw [Grammar.readingsOf_reshape, List.filter_map]
    refine congrArg _ (List.filter_congr fun r hr => ?_)
    have hfits := h r (List.mem_of_mem_filter hr) s.lexeme hs
    simp only [Function.comp_apply, Grammar.reshapeReading, hfits]
    rfl
  unfold arranged
  simp only [hfitting, List.filter_map, List.map_append]
  rfl

theorem tryReading_matches (h : c.Reshaped shape shape' patterns lexemes) (n : Grid.Neighborhood) (row : List Symbol) (index : Nat)
    (original : Intent) {s : Symbol} (hs : s.lexeme ∈ lexemes) (r : Reading) :
    Matches (c.grammar.reshape shape) (c.grammar.reshape shape')
      (tryReading (c.reshape shape) n row index original s (Grammar.reshapeReading shape r))
      (tryReading (c.reshape shape') n row index original s (Grammar.reshapeReading shape' r)) := by
  refine (Matches.lift _).bind_of fun memo alternative halternative => ?_
  have hlexeme : alternative.lexeme = s.lexeme := by
    obtain ⟨_, rfl⟩ := Symbol.check_eq_ok_iff.1 (ok_of_mapError halternative)
    rfl
  refine (h.evaluate (hlexeme ▸ hs) n.position).bind fun b => (Matches.lift _).bind fun intent => ?_
  -- why a reading is refused is not read off the shapes
  have hrejection : rejection? (c.reshape shape').config (c.reshape shape').grammar original intent b =
    rejection? (c.reshape shape).config (c.reshape shape).grammar original intent b := rfl
  simp only [hrejection]
  cases rejection? (c.reshape shape).config (c.reshape shape).grammar original intent b with
  | some code => exact .pure _
  | none => exact (Matches.lift _).bind fun support => .pure _

theorem resolve_matches (h : c.Reshaped shape shape' patterns lexemes) (p : Position) :
    Matches (c.grammar.reshape shape) (c.grammar.reshape shape') (resolve (c.reshape shape) p) (resolve (c.reshape shape') p) := by
  refine (Matches.lift _).bind_of fun memo s hs => ?_
  have hlexeme := h.lexemes p s (Grid.cell_eq_ok_iff.1 hs)
  refine (Matches.lift _).bind fun row => (Matches.lift _).bind fun index => (Matches.lift _).bind fun intent => ?_
  refine (h.evaluate hlexeme p).bind fun original => (Matches.lift _).bind fun attested => ?_
  have harranged := arranged_reshape h.admits hlexeme attested
  have harranged' := arranged_reshape h.admits' hlexeme attested
  simp only [Context.reshape] at harranged harranged' ⊢
  rw [harranged, harranged', List.mapM_map, List.mapM_map]
  exact (Matches.mapM fun r _ => tryReading_matches h _ row index intent hlexeme r).bind fun tried => .pure _

end Resolution

namespace Survey

theorem judge_matches (h : c.Reshaped shape shape' patterns lexemes) {s : Symbol} (hs : s.lexeme ∈ lexemes) (row : List Symbol)
    (index : Nat) (p : Position) : Matches (c.grammar.reshape shape) (c.grammar.reshape shape')
      (judge (c.reshape shape) row (index, p, s)) (judge (c.reshape shape') row (index, p, s)) := by
  refine (h.evaluate hs p).bind fun b => (Matches.lift _).bind fun intent => ?_
  exact .ite (.pure _) (.pure _)

theorem surveyRow_matches (h : c.Reshaped shape shape' patterns lexemes) (expired : Bool) (unit : Lane × Nat) :
    Matches (c.grammar.reshape shape) (c.grammar.reshape shape') (surveyRow (c.reshape shape) expired unit)
      (surveyRow (c.reshape shape') expired unit) := by
  rw [surveyRow_eq, surveyRow_eq]
  cases expired with
  | true => exact .pure _
  | false =>
    refine Matches.bind (Matches.mapM fun entry hentry => ?_) fun judged => .pure _
    obtain ⟨e, he, rfl⟩ := List.mem_map.1 hentry
    have hs : c.grid.symbolAt? e.1.1 = some e.1.2 := symbolAt?_of_mem_rowCells (List.fst_mem_of_mem_zipIdx he)
    exact judge_matches h (h.lexemes _ _ hs) _ _ _

theorem resolvePosition_matches (h : c.Reshaped shape shape' patterns lexemes) (expired : Bool) (p : Position) :
    Matches (c.grammar.reshape shape) (c.grammar.reshape shape') (resolvePosition (c.reshape shape) expired p)
      (resolvePosition (c.reshape shape') expired p) := by
  refine (Matches.lift _).bind_of fun memo s hs => ?_
  refine (h.evaluate (h.lexemes p s (Grid.cell_eq_ok_iff.1 hs)) p).bind fun original => ?_
  cases expired with
  | true => exact .pure _
  | false => exact (Resolution.resolve_matches h p).bind fun r => .pure _

/-- With other shapes for the same patterns a survey answers the same, whenever its deadline passes. -/
theorem run_matches (h : c.Reshaped shape shape' patterns lexemes) (deadline : Deadline) :
    Matches (c.grammar.reshape shape) (c.grammar.reshape shape') (run (c.reshape shape) deadline) (run (c.reshape shape') deadline) := by
  rw [run_eq, run_eq]
  refine (Matches.lift _).bind fun _ => ?_
  refine (Matches.runAll fun e _ => surveyRow_matches h (deadline e.1) e.2).bind fun scans => ?_
  refine (Matches.runAll fun e _ => Matches.mapM fun p _ => resolvePosition_matches h (deadline e.1) p).bind fun resolved => ?_
  simp only
  split
  · exact .lift _
  · exact .pure _

theorem answer_reshape (h : c.Reshaped shape shape' patterns lexemes) (deadline : Deadline) :
    ((run (c.reshape shape) deadline).run.run .empty).1 = ((run (c.reshape shape') deadline).run.run .empty).1 := by
  have hempty : OfGrammar (c.grammar.reshape shape) (.empty : Memo) := by
    intro e he
    cases he
  have hsame := (run_matches h deadline .empty hempty).2
  rw [MemoTable.rekey_empty] at hsame
  rw [hsame]

end Survey

/-! ## Assemblies -/

namespace Assembly

variable {m : Type → Type} [Monad m] [Building m]

theorem addItems_reshape (g : Grammar) (shape : Reading → LexemeShape) (row : OpenRow) (previous : Intent) (items : List Admitted) :
    (addItems (g.reshape shape) row previous items : m (OpenRow × Option OpenNode)) = addItems g row previous items := by
  induction items generalizing row previous with
  | nil => rfl
  | cons item rest ih =>
    cases rest with
    | nil => rfl
    | cons next rest => exact bind_congr fun row => ih row item.intent

theorem addRow_reshape (g : Grammar) (shape : Reading → LexemeShape) (laneId : Lane) :
    (addRow (g.reshape shape) laneId : OpenLane → Nat × List Admitted → m OpenLane) = addRow g laneId := by
  funext lane entry
  unfold addRow addStatement
  simp only [addItems_reshape]
  rfl

/-- A forest is assembled without looking at readings. -/
theorem ofDecisions_reshape (decisions : List Decision) (grid : Grid) (g : Grammar) (shape : Reading → LexemeShape) :
    ofDecisions decisions grid (g.reshape shape) = ofDecisions decisions grid g := by
  unfold ofDecisions gridRoots laneRoots
  simp only [addRow_reshape]

end Assembly

/-! ## Batches -/

namespace Batch

/-- Where readings have any patterns, what a batch with the standard scorer comes to depends on them only through what they admit of the
lexemes of its stream: shapes that admit these, the listed ones for example, give one batch, whatever else they admit. -/
theorem run_reshape {records : List TokenRecord} (h : g.Admits shape patterns (records.map (·.lexeme)))
    (h' : g.Admits shape' patterns (records.map (·.lexeme))) (config : Config) (deadline : Deadline) (merging : Bool) :
    run records config (g.reshape shape) .standard deadline merging = run records config (g.reshape shape') .standard deadline merging := by
  unfold run
  rw [Grid.organize_reshape, Grid.organize_reshape]
  refine bind_congr_of_ok fun _ _ => bind_congr_of_ok fun grid hgrid => ?_
  have hreshaped : Context.Reshaped ⟨grid, config, g, .standard⟩ shape shape' patterns (records.map (·.lexeme)) :=
    ⟨rfl, h, h', fun p s hs => Grid.lexeme_mem_of_organize (ok_of_mapError hgrid) hs⟩
  change (((Survey.run (Context.reshape ⟨grid, config, g, .standard⟩ shape) deadline).run.run .empty).1 >>= _) =
    (((Survey.run (Context.reshape ⟨grid, config, g, .standard⟩ shape') deadline).run.run .empty).1 >>= _)
  rw [Survey.answer_reshape hreshaped deadline]
  refine bind_congr_of_ok fun survey _ => ?_
  rw [ofSurvey_eq, ofSurvey_eq, Assembly.ofDecisions_reshape, Assembly.ofDecisions_reshape]

/-- A grammar with shapes of its own is one of those. -/
theorem run_eq_run_listed (records : List TokenRecord) (config : Config) (g : Grammar) (deadline : Deadline) (merging : Bool) :
    run records config g .standard deadline merging =
      run records config (g.reshape (Grammar.listed (fun r => r.shape.fits) (records.map (·.lexeme)))) .standard deadline merging := by
  have hself : g.reshape (·.shape) = g := by
    unfold Grammar.reshape
    rw [show Grammar.reshapeReading (·.shape) = id from rfl, List.map_id]
  have hlisted := Grammar.admits_listed g (fun r => r.shape.fits) (records.map (·.lexeme))
  rw [← run_reshape (fun _ _ _ _ => rfl) hlisted, hself]

end Batch

end TokenForest
