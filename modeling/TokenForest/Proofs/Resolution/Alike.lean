import TokenForest.Proofs.Erasure
import TokenForest.Proofs.Grid.Erased
import TokenForest.Proofs.Resolution.Outcome

/-!
# What a resolution reads

Two grids are alike at a position when it has one neighbourhood in both, and the symbols there are the same after erasing. Confidences
and resolutions at the position are then the same after erasing: scores, intents, attested readings and vertical support are read off the
neighbourhood alone.
-/

namespace TokenForest

namespace Grid

/-- A position has the same neighbourhood in two grids, and the symbols of the neighbourhood are the same after erasing. -/
structure AlikeAt {staging : Staging} (e : Erasure staging) (grid grid' : Grid) (p : Position) : Prop where
  neighborhood : grid.neighborhood p = grid'.neighborhood p
  symbols : ∀ q, (grid.neighborhood p).covers q = true → (grid.symbolAt? q).map e.erase = (grid'.symbolAt? q).map e.erase

variable {staging : Staging} {e : Erasure staging} {grid grid' : Grid} {p q : Position}

namespace AlikeAt

variable (h : grid.AlikeAt e grid' p)

include h

theorem self : (grid.symbolAt? p).map e.erase = (grid'.symbolAt? p).map e.erase :=
  h.symbols p (by simp [Neighborhood.covers, Grid.neighborhood])

theorem of_row (hq : q ∈ (grid.neighborhood p).row) : (grid.symbolAt? q).map e.erase = (grid'.symbolAt? q).map e.erase :=
  h.symbols q (by simp [Neighborhood.covers, hq])

theorem of_vertical (hq : q ∈ (grid.neighborhood p).vertical) : (grid.symbolAt? q).map e.erase = (grid'.symbolAt? q).map e.erase :=
  h.symbols q (by simp [Neighborhood.covers, hq])

theorem of_counterparts (hq : q ∈ (grid.neighborhood p).counterparts) :
    (grid.symbolAt? q).map e.erase = (grid'.symbolAt? q).map e.erase :=
  h.symbols q (by simp [Neighborhood.covers, hq])

/-- The symbols of the row are the same after erasing. -/
theorem row : ((grid.neighborhood p).row.filterMap grid.symbolAt?).map e.erase =
    ((grid'.neighborhood p).row.filterMap grid'.symbolAt?).map e.erase := by
  rw [List.map_filterMap, List.map_filterMap, ← h.neighborhood]
  exact List.filterMap_congr fun q hq => h.of_row hq

end AlikeAt

/-- Grids that are the same after erasing are alike everywhere. -/
theorem alikeAt_of_erase (h : grid.erase e.erase = grid'.erase e.erase) (p : Position) : grid.AlikeAt e grid' p where
  neighborhood := by rw [← neighborhood_erase e.erase, h, neighborhood_erase]
  symbols q _ := by rw [← symbolAt?_erase, h, symbolAt?_erase]

/-- The row neighbours of a position stand in its row. -/
theorem mem_row_of_beside : (∀ l, (grid.beside p).1 = some l → l ∈ grid.rowPositions p.lane p.row) ∧
    ∀ r, (grid.beside p).2 = some r → r ∈ grid.rowPositions p.lane p.row := by
  unfold beside around
  split
  · simp
  · constructor
    · intro l hl
      simp only at hl
      split at hl
      · cases hl
      · exact List.mem_of_getElem? hl
    · exact fun r hr => List.mem_of_getElem? hr

end Grid

/-! ## Other lanes and rows -/

namespace Resolution

variable {grid grid' : Grid} {n : Grid.Neighborhood} {e : Forgetting}

/-- The tags that other lanes attest are read off the symbols there after erasing. -/
theorem attestedTags_congr (lexeme : String)
    (h : ∀ q ∈ n.counterparts, (grid.symbolAt? q).map e.erase = (grid'.symbolAt? q).map e.erase) :
    attestedTags grid n lexeme = attestedTags grid' n lexeme := by
  unfold attestedTags
  apply List.filterMap_congr
  intro q hq
  have hmap : ∀ o : Option Symbol, o.bind (tagOf? lexeme) = (o.map e.erase).bind (tagOf? lexeme) := by
    intro o
    cases o with
    | none => rfl
    | some t => simp only [tagOf?, Option.map_some, Option.bind_some, e.lexeme, e.typeTag]
  rw [hmap, h q hq, ← hmap]

/-- The support for a hint is read off the vertical neighbours after erasing. -/
theorem supportOf_congr (hint : Hint)
    (h : ∀ q ∈ n.vertical, (grid.symbolAt? q).map e.erase = (grid'.symbolAt? q).map e.erase) :
    supportOf grid n hint = supportOf grid' n hint := by
  unfold supportOf
  apply List.countP_congr
  intro q hq
  have hmap : ∀ o : Option Symbol, (o.any fun t => decide (t.hint = hint)) = (o.map e.erase).any fun t => decide (t.hint = hint) := by
    intro o
    cases o with
    | none => rfl
    | some t => simp only [Option.map_some, Option.any_some, e.hint]
  rw [hmap, h q hq, ← hmap]

end Resolution

/-! ## Confidences -/

section

variable {grid grid' : Grid} {config : Config} {grammar : Grammar} {p : Position} {e : Erasure config.staging}
  {s s' : Symbol} (h : grid.AlikeAt e grid' p)

include h

theorem Scoring.standard_alike (hs : e.erase s = e.erase s') :
    standard s p grid config grammar = standard s' p grid' config grammar := by
  have hrow : grid.rowPositions p.lane p.row = grid'.rowPositions p.lane p.row := congrArg Grid.Neighborhood.row h.neighborhood
  have hbeside : grid.beside p = grid'.beside p := by
    unfold Grid.beside
    rw [hrow]
  obtain ⟨hleft, hright⟩ := grid.mem_row_of_beside (p := p)
  have hsymbol : ∀ o : Option Position, (∀ q, o = some q → q ∈ grid.rowPositions p.lane p.row) →
      (o.bind grid.symbolAt?).map e.erase = (o.bind grid'.symbolAt?).map e.erase := by
    intro o ho
    cases o with
    | none => rfl
    | some q => exact h.of_row (ho q rfl)
  unfold standard
  simp only
  rw [← e.componentsBetween_map s, ← e.componentsBetween_map s', hsymbol _ hleft, hsymbol _ hright, hs, hbeside]

/-! ## Rows -/

namespace Context

theorem rowAt_alike : ((Context.standard grid config grammar).rowAt p).map e.erase =
    ((Context.standard grid' config grammar).rowAt p).map e.erase := h.row

theorem indexAt_alike : (Context.standard grid config grammar).indexAt p = (Context.standard grid' config grammar).indexAt p :=
  congrArg (fun n : Grid.Neighborhood => n.row.idxOf p) h.neighborhood

/-- The symbol at the position has one intent in both grids. -/
theorem intentAt_alike : (Context.standard grid config grammar).intentAt p = (Context.standard grid' config grammar).intentAt p := by
  unfold intentAt
  rw [← e.classify_map, rowAt_alike h, e.classify_map, indexAt_alike h]
  rfl

end Context

/-- The symbols of two grids that are alike have the same confidence. -/
theorem Context.breakdown_alike (hs : e.erase s = e.erase s') :
    (Context.standard grid config grammar).breakdown s p = (Context.standard grid' config grammar).breakdown s' p := by
  have hscore : Scoring.standard s p grid config grammar = Scoring.standard s' p grid' config grammar := Scoring.standard_alike h hs
  unfold breakdown weights breakdownWith Context.standard
  simp only [Scorer.standard, hscore]

theorem Context.symbolAt_alike : ((Context.standard grid config grammar).symbolAt p).map e.erase =
    ((Context.standard grid' config grammar).symbolAt p).map e.erase := by
  have hself := h.self
  unfold symbolAt Grid.cell Context.standard
  simp only
  cases hs : grid.symbolAt? p <;> cases hs' : grid'.symbolAt? p <;> rw [hs, hs'] at hself <;> simp_all [Except.map]

namespace Resolution

/-! ## Readings -/

theorem readingsAt_alike (hs : e.erase s = e.erase s') :
    (Context.standard grid config grammar).readingsAt p s = (Context.standard grid' config grammar).readingsAt p s' := by
  have hclass : s.symbolClass = s'.symbolClass := by rw [← e.symbolClass s, hs, e.symbolClass]
  have hlexeme : s.lexeme = s'.lexeme := by rw [← e.lexeme s, hs, e.lexeme]
  have htag : s.typeTag = s'.typeTag := by rw [← e.typeTag s, hs, e.typeTag]
  have hattested : attestedTags grid (grid.neighborhood p) s.lexeme = attestedTags grid' (grid'.neighborhood p) s'.lexeme := by
    rw [← h.neighborhood, hlexeme]
    exact attestedTags_congr s'.lexeme fun q hq => h.of_counterparts hq
  unfold Context.readingsAt alternatives arranged Context.standard
  simp only
  rw [hattested, hclass, hlexeme, htag]

theorem supportOf_alike (hint : Hint) : supportOf grid (grid.neighborhood p) hint = supportOf grid' (grid'.neighborhood p) hint := by
  rw [← h.neighborhood]
  exact supportOf_congr hint fun q hq => h.of_vertical hq

omit h in
/-- A reading passes its checks whatever is erased. -/
theorem check_alike (hs : e.erase s = e.erase s') (r : Reading) :
    ((reread s r).check.mapError Fault.symbol).map e.erase = ((reread s' r).check.mapError Fault.symbol).map e.erase := by
  have hclass : s.symbolClass = s'.symbolClass := by rw [← e.symbolClass s, hs, e.symbolClass]
  have hlexeme : s.lexeme = s'.lexeme := by rw [← e.lexeme s, hs, e.lexeme]
  have hscore : s.lexicalScore = s'.lexicalScore := by rw [← e.lexicalScore s, hs, e.lexicalScore]
  have hfault : (reread s r).fault? = (reread s' r).fault? :=
    Symbol.fault?_congr (id_reread_ne s r) (id_reread_ne s' r) hclass rfl hlexeme hscore
  unfold Symbol.check
  rw [hfault]
  cases (reread s' r).fault? with
  | some fault => rfl
  | none => exact congrArg Except.ok (e.reread hs r)

/-- How a reading was judged, with the alternative that it makes erased. -/
def eraseTried (f : Symbol → Symbol) (t : Candidate × Option Passing) : Candidate × Option Passing := (t.1, t.2.map (Passing.erase f))

theorem weigh_alike {row row' : List Symbol} (hrow : row.map e.erase = row'.map e.erase) (index : Nat) (original : Intent) (r : Reading)
    {alternative alternative' : Symbol} (halternative : e.erase alternative = e.erase alternative') (b : Breakdown) :
    eraseTried e.erase (weigh (.standard grid config grammar) (grid.neighborhood p) row index original r alternative b) =
      eraseTried e.erase (weigh (.standard grid' config grammar) (grid'.neighborhood p) row' index original r alternative' b) := by
  have hintent : Intents.classify grammar (row.set index alternative) index =
      Intents.classify grammar (row'.set index alternative') index := by
    rw [← e.classify_map, ← e.classify_map grammar (row'.set index alternative'), List.map_set, List.map_set, hrow, halternative]
  unfold weigh eraseTried Context.standard
  simp only
  rw [hintent, supportOf_alike h r.hint]
  split
  · rfl
  · simp only [Option.map_some, Passing.erase, halternative]

theorem tried_alike {row row' : List Symbol} (hrow : row.map e.erase = row'.map e.erase) (index : Nat) (original : Intent)
    (hs : e.erase s = e.erase s') (readings : List Reading) (r : Reading) :
    (tried (.standard grid config grammar) (grid.neighborhood p) row index original s readings r).map (eraseTried e.erase) =
      (tried (.standard grid' config grammar) (grid'.neighborhood p) row' index original s' readings r).map (eraseTried e.erase) := by
  unfold tried
  refine map_bind_congr (check_alike hs r) fun alternative alternative' halternative => ?_
  refine map_bind_congr (f := id) (congrArg _ (Context.breakdown_alike h (e.reread hs (standIn readings r)))) ?_
  rintro b _ rfl
  exact congrArg Except.ok (weigh_alike h hrow index original r halternative b)

theorem triedAt_alike (hs : e.erase s = e.erase s') :
    (triedAt (.standard grid config grammar) p s).map (List.map (eraseTried e.erase)) =
      (triedAt (.standard grid' config grammar) p s').map (List.map (eraseTried e.erase)) := by
  unfold triedAt
  rw [← Context.intentAt_alike h, ← Context.indexAt_alike h, ← readingsAt_alike h hs]
  exact map_mapM_congr fun r _ => tried_alike h (Context.rowAt_alike h) _ _ hs _ r

/-- What a resolution finds is read off the neighbourhood of its position. -/
theorem outcome_alike : (outcome (.standard grid config grammar) p).map (Resolution.erase e.erase) =
    (outcome (.standard grid' config grammar) p).map (Resolution.erase e.erase) := by
  unfold outcome
  refine map_bind_congr (Context.symbolAt_alike h) fun s s' hs => ?_
  refine map_bind_congr (f := id) (congrArg _ (Context.breakdown_alike h hs)) ?_
  rintro original _ rfl
  refine map_bind_congr (triedAt_alike h hs) fun ts ts' hts => ?_
  have hresolution : ∀ (intent : Intent) (ts : List (Candidate × Option Passing)),
      (ofTried original intent ts).erase e.erase = ofTried original intent (ts.map (eraseTried e.erase)) :=
    fun intent ts => (ofTried_map original intent ts).symm
  change Except.ok ((ofTried original _ ts).erase e.erase) = Except.ok ((ofTried original _ ts').erase e.erase)
  rw [hresolution, hresolution, hts, Context.intentAt_alike h]

end Resolution

end

end TokenForest
