import TokenForest.Proofs.Grid.Views
import TokenForest.Proofs.Resolution.Alike

/-!
# Symbols in the place of another

The symbols of a row stand in it at the places of their positions. Another symbol may be put in the place of one: the others keep
theirs, and the intent that it has there is read off the row with it.
-/

namespace TokenForest

variable {c : Context} {p : Position} {s t : Symbol}

/-! ## Places in a row -/

/-- What belongs to a position stands at the place of the position. -/
theorem getElem?_filterMap_idxOf {α : Type} {f : Position → Option α} {ps : List Position} (hall : ∀ q ∈ ps, (f q).isSome = true)
    (hp : p ∈ ps) : (ps.filterMap f)[ps.idxOf p]? = f p := by
  induction ps with
  | nil => simp at hp
  | cons q ps ih =>
    obtain ⟨a, ha⟩ := Option.isSome_iff_exists.1 (hall q (by simp))
    rw [List.filterMap_cons_some ha]
    by_cases hq : q = p
    · subst hq
      rw [List.idxOf_cons_self, ha]
      rfl
    · rw [List.idxOf_cons_ne _ hq, List.getElem?_cons_succ]
      exact ih (fun r hr => hall r (by simp [hr])) (by simpa [Ne.symm hq] using hp)

/-- Functions that agree at all positions but one have the same values but for the place of this position. -/
theorem filterMap_eq_set {α : Type} {f g : Position → Option α} {ps : List Position} {a : α} (hnodup : ps.Nodup) (hp : p ∈ ps)
    (hall : ∀ q ∈ ps, (f q).isSome = true) (hsame : ∀ q ∈ ps, q ≠ p → g q = f q) (hg : g p = some a) :
    ps.filterMap g = (ps.filterMap f).set (ps.idxOf p) a := by
  induction ps with
  | nil => simp at hp
  | cons q ps ih =>
    obtain ⟨b, hb⟩ := Option.isSome_iff_exists.1 (hall q (by simp))
    rw [List.nodup_cons] at hnodup
    by_cases hq : q = p
    · subst hq
      have hrest : ps.filterMap g = ps.filterMap f := by
        refine List.filterMap_congr fun r hr => hsame r (by simp [hr]) ?_
        rintro rfl
        exact hnodup.1 hr
      rw [List.filterMap_cons_some hg, List.filterMap_cons_some hb, List.idxOf_cons_self, List.set_cons_zero, hrest]
    · have hgq : g q = some b := (hsame q (by simp) hq).trans hb
      rw [List.filterMap_cons_some hgq, List.filterMap_cons_some hb, List.idxOf_cons_ne _ hq, List.set_cons_succ]
      rw [ih hnodup.2 (by simpa [Ne.symm hq] using hp) (fun r hr => hall r (by simp [hr])) fun r hr => hsame r (by simp [hr])]

namespace Context

/-- Every position of a row has a symbol. -/
theorem isSome_symbolAt? {lane : Lane} {row : Nat} : ∀ q ∈ c.grid.rowPositions lane row, (c.grid.symbolAt? q).isSome = true := by
  intro q hq
  obtain ⟨t, ht⟩ := Grid.exists_symbolAt? (Grid.mem_rowPositions.1 hq).1
  rw [ht]
  rfl

/-- A position with a symbol stands in its row. -/
theorem mem_rowPositions_of_symbolAt? (hs : c.grid.symbolAt? p = some s) : p ∈ c.grid.rowPositions p.lane p.row := by
  rw [Grid.mem_rowPositions]
  exact ⟨List.mem_map_of_mem (f := Prod.fst) (Grid.mem_cells_of_symbolAt? hs), rfl, rfl⟩

/-- The symbol at a position stands at its index of its row. -/
theorem getElem?_rowAt (hs : c.grid.symbolAt? p = some s) : (c.rowAt p)[c.indexAt p]? = some s :=
  (getElem?_filterMap_idxOf isSome_symbolAt? (mem_rowPositions_of_symbolAt? hs)).trans hs

/-- The recorded symbol has its own intent in its place. -/
theorem intentAs_self (hs : c.grid.symbolAt? p = some s) : c.intentAs p s = c.intentAt p := by
  obtain ⟨hi, hget⟩ := List.getElem?_eq_some_iff.1 (getElem?_rowAt hs)
  unfold intentAs intentAt
  rw [← hget, List.set_getElem_self]

/-- A symbol has one intent in a place whatever its name is. -/
theorem intentAs_nameless (h : s.nameless = t.nameless) : c.intentAs p s = c.intentAs p t := by
  have hrow : ((c.rowAt p).set (c.indexAt p) s).map Symbol.nameless = ((c.rowAt p).set (c.indexAt p) t).map Symbol.nameless := by
    rw [List.map_set, List.map_set, h]
  have hclassify := (Erasure.names c.config.staging).classify_map c.grammar
  unfold intentAs
  rw [← hclassify, ← hclassify ((c.rowAt p).set (c.indexAt p) t)]
  exact congrArg (fun row => Intents.classify c.grammar row (c.indexAt p)) hrow

/-- A symbol has one confidence at a position whatever its name is. -/
theorem breakdown_nameless (hscorer : c.scorer = .standard) (h : s.nameless = t.nameless) : c.breakdown s p = c.breakdown t p := by
  obtain ⟨grid, config, grammar, scorer⟩ := c
  obtain rfl : scorer = .standard := hscorer
  exact Context.breakdown_alike (e := Erasure.names config.staging) (Grid.alikeAt_of_erase rfl p) h

end Context

/-! ## Symbols under another tag -/

/-- Another reading of a symbol is the symbol under the tag and the hint of the reading, with another name. -/
theorem Resolution.nameless_reread (s : Symbol) (r : Reading) :
    (Resolution.reread s r).nameless = (s.retag r.typeTag r.hint).nameless := rfl

end TokenForest
