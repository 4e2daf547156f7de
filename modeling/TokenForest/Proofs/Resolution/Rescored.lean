import TokenForest.Proofs.Resolution.Amended

/-!
# Grids with other scores

Of the score of a symbol only its own confidence reads anything. Two grids with the same symbols but for their scores have the same
intents, readings and support everywhere, and where the symbol of a position has one score in both, its resolution is the same.
-/

namespace TokenForest

/-- A symbol without its score. -/
def Symbol.scoreless (s : Symbol) : Symbol := { s with lexicalScore := .nan }

/-- Forgets the scores of symbols. -/
def Forgetting.scores : Forgetting where
  erase := Symbol.scoreless
  lexeme _ := rfl
  typeTag _ := rfl
  hint _ := rfl

namespace Grid

/-- The grids have the same symbols at the same positions, but for the scores of the symbols. -/
structure Rescored (grid grid' : Grid) : Prop where
  staged : grid.staged = grid'.staged
  positions : grid.positions = grid'.positions
  symbols : ∀ q, (grid.symbolAt? q).map Symbol.scoreless = (grid'.symbolAt? q).map Symbol.scoreless

theorem Rescored.neighborhood {grid grid' : Grid} (h : grid.Rescored grid') (p : Position) :
    grid.neighborhood p = grid'.neighborhood p := neighborhood_congr h.staged h.positions p

/-- A grid that is amended by a symbol with another score is the same but for scores. -/
theorem rescored_amend {grid : Grid} {p : Position} {s t : Symbol} (hs : grid.symbolAt? p = some s) (h : s.scoreless = t.scoreless) :
    grid.Rescored (grid.amend p t) where
  staged := rfl
  positions := (positions_amend grid p t).symm
  symbols q := by
    by_cases hq : q = p
    · subst hq
      rw [hs, symbolAt?_amend_self (List.mem_map_of_mem (f := Prod.fst) (mem_cells_of_symbolAt? hs)), Option.map_some, h, Option.map_some]
    · rw [symbolAt?_amend_of_ne hq]

end Grid

section

variable {grid grid' : Grid} {config : Config} {grammar : Grammar} {p : Position} {s s' : Symbol} (h : grid.Rescored grid')

include h

/-! ## Scores and intents -/

theorem Scoring.standard_rescored (s : Symbol) (p : Position) :
    standard s p grid config grammar = standard s p grid' config grammar := by
  have hbeside : grid.beside p = grid'.beside p := by
    unfold Grid.beside Grid.rowPositions Grid.lanePositions
    rw [h.positions]
  have hbetween : ∀ left right : Option Symbol, componentsBetween s left right config.staging grammar =
      componentsBetween s (left.map Symbol.scoreless) (right.map Symbol.scoreless) config.staging grammar := by
    intro left right
    unfold componentsBetween
    have hpositional : positional s left right grammar = positional s (left.map Symbol.scoreless) (right.map Symbol.scoreless) grammar :=
      (Forgetting.scores.positional_map s left right grammar).symm
    have htype : typeConsistency s left right = typeConsistency s (left.map Symbol.scoreless) (right.map Symbol.scoreless) :=
      (Forgetting.scores.typeConsistency_map s left right).symm
    rw [← hpositional, ← htype]
  have hsymbol : ∀ o : Option Position, (o.bind grid.symbolAt?).map Symbol.scoreless = (o.bind grid'.symbolAt?).map Symbol.scoreless := by
    intro o
    cases o with
    | none => rfl
    | some q => exact h.symbols q
  unfold standard
  simp only
  rw [hbetween, hsymbol, hsymbol, ← hbetween, hbeside]

namespace Context

/-- A symbol has one confidence at a position of both grids. -/
theorem breakdown_rescored (s : Symbol) (p : Position) :
    (standard grid config grammar).breakdown s p = (standard grid' config grammar).breakdown s p := by
  have hscore : Scoring.standard s p grid config grammar = Scoring.standard s p grid' config grammar := Scoring.standard_rescored h s p
  unfold breakdown weights breakdownWith standard
  simp only [Scorer.standard, hscore]

theorem indexAt_rescored (p : Position) : (standard grid config grammar).indexAt p = (standard grid' config grammar).indexAt p :=
  congrArg (fun n : Grid.Neighborhood => n.row.idxOf p) (h.neighborhood p)

theorem rowAt_rescored (p : Position) : ((standard grid config grammar).rowAt p).map Symbol.scoreless =
    ((standard grid' config grammar).rowAt p).map Symbol.scoreless := by
  have hrow := congrArg Grid.Neighborhood.row (h.neighborhood p)
  unfold rowAt standard
  rw [List.map_filterMap, List.map_filterMap, hrow]
  exact List.filterMap_congr fun q _ => h.symbols q

/-- The symbol of a position has one intent in both grids. -/
theorem intentAt_rescored (p : Position) : (standard grid config grammar).intentAt p = (standard grid' config grammar).intentAt p := by
  have hclassify := Forgetting.scores.classify_map grammar
  unfold intentAt
  rw [← indexAt_rescored h]
  change Intents.classify grammar _ _ = Intents.classify grammar _ _
  rw [← hclassify, ← hclassify ((standard grid' config grammar).rowAt p)]
  exact congrArg (fun row => Intents.classify grammar row _) (rowAt_rescored h p)

/-- A symbol has one intent in the place of the one at a position, whatever its score is. -/
theorem intentAs_rescored (hs : s.scoreless = s'.scoreless) (p : Position) :
    (standard grid config grammar).intentAs p s = (standard grid' config grammar).intentAs p s' := by
  have hclassify := Forgetting.scores.classify_map grammar
  unfold intentAs
  rw [← indexAt_rescored h]
  change Intents.classify grammar _ _ = Intents.classify grammar _ _
  rw [← hclassify, ← hclassify (((standard grid' config grammar).rowAt p).set _ s'), List.map_set, List.map_set]
  have hrow : ((standard grid config grammar).rowAt p).map Forgetting.scores.erase =
    ((standard grid' config grammar).rowAt p).map Forgetting.scores.erase := rowAt_rescored h p
  have hsymbol : Forgetting.scores.erase s = Forgetting.scores.erase s' := hs
  rw [hrow, hsymbol]

end Context

/-! ## Resolutions -/

namespace Resolution

/-- The same readings are tried, whatever the score of the symbol is. -/
theorem readingsAt_rescored (hs : s.scoreless = s'.scoreless) (p : Position) :
    (Context.standard grid config grammar).readingsAt p s = (Context.standard grid' config grammar).readingsAt p s' := by
  simp only [Symbol.scoreless, Symbol.mk.injEq] at hs
  obtain ⟨_, hclass, hlexeme, htag, _⟩ := hs
  have hattested : attestedTags grid (grid.neighborhood p) s.lexeme = attestedTags grid' (grid'.neighborhood p) s'.lexeme := by
    rw [h.neighborhood p, hlexeme]
    exact attestedTags_congr (e := .scores) s'.lexeme fun q _ => h.symbols q
  unfold Context.readingsAt alternatives arranged Context.standard
  simp only
  rw [hattested, hclass, hlexeme, htag]

theorem supportOf_rescored (p : Position) (hint : Hint) :
    supportOf grid (grid.neighborhood p) hint = supportOf grid' (grid'.neighborhood p) hint := by
  rw [h.neighborhood p]
  exact supportOf_congr (e := .scores) hint fun q _ => h.symbols q

/-- A reading that has one intent in two rows is weighed alike. -/
theorem weigh_rescored {row row' : List Symbol} {index index' : Nat} {alternative : Symbol}
    (hintent : Intents.classify grammar (row.set index alternative) index = Intents.classify grammar (row'.set index' alternative) index')
    (p : Position) (original : Intent) (r : Reading) (b : Breakdown) :
    weigh (.standard grid config grammar) (grid.neighborhood p) row index original r alternative b =
      weigh (.standard grid' config grammar) (grid'.neighborhood p) row' index' original r alternative b := by
  unfold weigh Context.standard
  simp only
  rw [hintent, supportOf_rescored h p r.hint]

/-- A reading of the symbol at a position is tried alike. -/
theorem tried_rescored (p : Position) (s : Symbol) (original : Intent) (readings : List Reading) (r : Reading) :
    tried (.standard grid config grammar) (grid.neighborhood p) ((Context.standard grid config grammar).rowAt p)
        ((Context.standard grid config grammar).indexAt p) original s readings r =
      tried (.standard grid' config grammar) (grid'.neighborhood p) ((Context.standard grid' config grammar).rowAt p)
        ((Context.standard grid' config grammar).indexAt p) original s readings r := by
  unfold tried
  refine bind_congr fun alternative => ?_
  have hweigh : ∀ b, weigh (.standard grid config grammar) (grid.neighborhood p) ((Context.standard grid config grammar).rowAt p)
      ((Context.standard grid config grammar).indexAt p) original r alternative b = weigh (.standard grid' config grammar)
      (grid'.neighborhood p) ((Context.standard grid' config grammar).rowAt p) ((Context.standard grid' config grammar).indexAt p)
      original r alternative b :=
    fun b => weigh_rescored h (Context.intentAs_rescored h rfl p) p original r b
  simp only [hweigh]
  rw [Context.breakdown_rescored h, h.neighborhood p]

theorem triedAt_rescored (p : Position) (s : Symbol) :
    triedAt (.standard grid config grammar) p s = triedAt (.standard grid' config grammar) p s := by
  unfold triedAt
  rw [readingsAt_rescored h rfl, Context.intentAt_rescored h]
  exact congrArg (fun f => List.mapM f _) (funext fun r => tried_rescored h p s _ _ r)

/-- Where the symbol of a position has one score in both grids, a resolution finds the same. -/
theorem outcome_rescored (hp : grid.symbolAt? p = grid'.symbolAt? p) :
    outcome (.standard grid config grammar) p = outcome (.standard grid' config grammar) p := by
  have hsymbol : (Context.standard grid config grammar).symbolAt p = (Context.standard grid' config grammar).symbolAt p :=
    Grid.cell_congr hp
  unfold outcome
  rw [hsymbol, Context.intentAt_rescored h]
  refine bind_congr fun s => ?_
  rw [Context.breakdown_rescored h, triedAt_rescored h]

end Resolution

end

end TokenForest
