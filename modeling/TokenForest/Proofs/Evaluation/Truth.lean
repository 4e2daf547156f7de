import TokenForest.Proofs.Binary64.ZeroSign
import TokenForest.Proofs.Config.Valid
import TokenForest.Proofs.MemoTable
import TokenForest.Proofs.Resolution.Readings

/-!
# What the table of confidences tells

A key of the table names a symbol and not its tag or its hint. At a position confidences are asked for the symbol of the cell and for
its other readings, in one order, and a reading carries its tag in its name. So a name stands for the first symbol of that order with
the name, and every confidence that is stored is the confidence of this symbol, whatever has been evaluated before and under
whatever configurations and grammars.
-/

namespace TokenForest

namespace Context

open Resolution

/-- The symbol that a name stands for at a position: of the symbol in the cell and its other readings, the first one with the name. -/
def bearer? (c : Context) (p : Position) (name : String) : Option Symbol :=
  (c.grid.symbolAt? p).bind fun s => (s :: (c.readingsAt p s).map (reread s)).find? (fun t => decide (t.id = name))

variable {c c' : Context} {p : Position} {s t u : Symbol} {w w' : Weights} {memo : Memo}

theorem id_of_bearer? {name : String} (h : c.bearer? p name = some t) : t.id = name := by
  obtain ⟨s, _, h⟩ := Option.bind_eq_some_iff.1 h
  simpa using List.find?_some h

/-- The symbol of a cell bears its own name. -/
theorem bearer?_self (hs : c.grid.symbolAt? p = some s) : c.bearer? p s.id = some s := by
  simp [bearer?, hs]

/-- The name of a reading stands for the first reading with its tag. -/
theorem bearer?_reread (hs : c.grid.symbolAt? p = some s) {r : Reading} (hr : r ∈ c.readingsAt p s) :
    c.bearer? p (reread s r).id = some (reread s (standIn (c.readingsAt p s) r)) := by
  have hself : ¬s.id = (reread s r).id := fun h => id_reread_ne_id s r h.symm
  unfold bearer? standIn
  rw [hs, Option.bind_some, List.find?_cons_of_neg (by simpa using hself), List.find?_map]
  have hfind : (c.readingsAt p s).find? ((fun t : Symbol => decide (t.id = (reread s r).id)) ∘ reread s) =
      (c.readingsAt p s).find? (fun r' => decide (r'.typeTag = r.typeTag)) := by
    congr 1
    funext r'
    simp [id_reread_eq_iff]
  rw [hfind]
  cases hfirst : (c.readingsAt p s).find? (fun r' => decide (r'.typeTag = r.typeTag)) with
  | some r' => rfl
  | none =>
    rw [List.find?_eq_none] at hfirst
    simpa using hfirst r hr

/-! ## Confidences -/

/-- Every stored confidence is that of the symbol which its name stands for. -/
def Truthful (grid : Grid) (memo : Memo) : Prop :=
  ∀ c : Context, c.grid = grid → c.scorer = .standard → ∀ w p t b, c.weights = .ok w → c.bearer? p t.id = some t →
    memo.get? (c.key w t p) = some b → c.breakdownWith w t p = .ok b

/-- A table without values is truthful. -/
theorem truthful_of_entries_nil {grid : Grid} (h : memo.entries = []) : Truthful grid memo := by
  intro c _ _ w p t b _ _ hget
  rw [MemoTable.get?, h] at hget
  cases hget

/-- The weights in effect are valid. -/
theorem validate_of_weights (h : c.weights = .ok w) : w.validate = .ok () :=
  Weights.validate_of_effective (ok_of_mapError h)

/-- The confidence of a symbol reads of the configuration the values of the weights in effect and the staging. -/
theorem breakdownWith_congr (hscorer : c.scorer = .standard) (hscorer' : c'.scorer = .standard) (hgrid : c.grid = c'.grid)
    (hgrammar : c.grammar = c'.grammar) (hstaging : c.config.staging = c'.config.staging) (hkey : w.key = w'.key)
    (hw : w.validate = .ok ()) (hw' : w'.validate = .ok ()) (s : Symbol) (p : Position) :
    c.breakdownWith w s p = c'.breakdownWith w' s p := by
  have hscore : c.scorer.score s p c.grid c.config c.grammar = c'.scorer.score s p c'.grid c'.config c'.grammar := by
    rw [hscorer, hscorer', hgrid, hgrammar]
    simp only [Scorer.standard, Scoring.standard, hstaging]
  have hcombine : ∀ components : Components, components.combine w = components.combine w' := by
    intro components
    unfold Components.combine
    rw [hw, hw', components.blend_eq_of_key hkey]
  unfold breakdownWith
  rw [hscore]
  simp only [hcombine]

/-- The confidence of the name of a symbol is stored. -/
def Stores (c : Context) (memo : Memo) (u : Symbol) (p : Position) : Prop :=
  ∀ w, c.weights = .ok w → ∃ b, memo.get? (c.key w u p) = some b

theorem Stores.mono {memo' : Memo} (h : c.Stores memo u p) (hextends : memo.Extends memo') : c.Stores memo' u p := by
  intro w hw
  obtain ⟨b, hb⟩ := h w hw
  exact ⟨b, hextends _ _ hb⟩

theorem key_of_id (h : t.id = u.id) (w : Weights) (p : Position) : c.key w t p = c.key w u p := by
  simp only [key, h]

/-- Storing the confidence of the symbol that a name stands for keeps a table truthful. -/
theorem Truthful.store {b : Breakdown} (h : Truthful c.grid memo) (hscorer : c.scorer = .standard) (hw : c.weights = .ok w)
    (ht : c.bearer? p t.id = some t) (hb : c.breakdownWith w t p = .ok b) (misses : Nat) :
    Truthful c.grid { memo with entries := memo.entries ++ [(c.key w t p, b)], misses := misses } := by
  intro c' hgrid hscorer' w' p' t' b' hw' ht' hget
  unfold MemoTable.get? at hget
  rw [List.lookup_append, Option.or_eq_some_iff] at hget
  rcases hget with hget | ⟨_, hget⟩
  · exact h c' hgrid hscorer' w' p' t' b' hw' ht' hget
  · rw [List.lookup_cons] at hget
    split at hget
    · rename_i hsame
      cases hget
      obtain ⟨hid, hp, hkey, hstaging, hgrammar, _⟩ := EvaluationKey.mk.injEq .. ▸ eq_of_beq hsame
      -- the same key names the same symbol, which has the same confidence in both contexts
      subst hp
      have hbearer : c'.bearer? p' t'.id = c.bearer? p' t.id := by
        unfold bearer? readingsAt
        simp only [hgrid, hgrammar, hid]
      rw [hbearer, ht] at ht'
      cases ht'
      rw [← hb]
      exact breakdownWith_congr hscorer' hscorer hgrid hgrammar hstaging hkey (validate_of_weights hw')
        (validate_of_weights hw) t p'
    · cases hget

theorem stores_of_get? {b : Breakdown} (hw : c.weights = .ok w) (hget : memo.get? (c.key w u p) = some b) : c.Stores memo u p := by
  intro w' hw'
  cases hw.symm.trans hw'
  exact ⟨b, hget⟩

/-- A confidence that is found is that of the symbol which the name stands for. -/
theorem Truthful.found {b : Breakdown} (h : Truthful c.grid memo) (hscorer : c.scorer = .standard) (hw : c.weights = .ok w)
    (ht : c.bearer? p u.id = some t) (hget : memo.get? (c.key w u p) = some b) : c.breakdownWith w t p = .ok b := by
  have hid := id_of_bearer? ht
  apply h c rfl hscorer w p t b hw (hid ▸ ht)
  rwa [key_of_id hid]

/-- A confidence that is not found is computed and stored, when it can be computed. -/
theorem Truthful.fresh (h : Truthful c.grid memo) (hscorer : c.scorer = .standard) (hw : c.weights = .ok w)
    (ht : c.bearer? p t.id = some t) (hget : memo.get? (c.key w t p) = none) :
    ∃ memo', memo.memoize (fun _ => false) (c.key w t p) (fun _ => c.breakdownWith w t p) = (c.breakdownWith w t p, memo') ∧
      Truthful c.grid memo' ∧ memo.Extends memo' ∧ ∀ b, c.breakdownWith w t p = .ok b → c.Stores memo' t p := by
  cases hb : c.breakdownWith w t p with
  | error fault =>
    refine ⟨memo, MemoTable.memoize_of_error hget rfl, h, MemoTable.Extends.refl memo, ?_⟩
    intro b hok
    cases hok
  | ok b =>
    have hmemoize : memo.memoize (fun _ => false) (c.key w t p) (fun _ => (Except.ok b : Except Fault Breakdown)) =
        (.ok b, { memo with entries := memo.entries ++ [(c.key w t p, b)], misses := memo.misses + 1 }) :=
      MemoTable.memoize_of_fresh hget rfl
    obtain ⟨hextends, hstored⟩ := MemoTable.memoize_extends hmemoize
    exact ⟨_, hmemoize, h.store hscorer hw ht hb _, hextends, fun _ _ => stores_of_get? hw hstored⟩

theorem run_evaluate (hw : c.weights = .ok w) (s : Symbol) (p : Position) (memo : Memo) : (c.evaluate s p).run.run memo =
    memo.memoize (fun _ => false) (c.key w s p) (fun _ => c.breakdownWith w s p) := by
  unfold evaluate
  rw [hw]
  rfl

theorem breakdown_of_weights (hw : c.weights = .ok w) (s : Symbol) (p : Position) : c.breakdown s p = c.breakdownWith w s p := by
  unfold breakdown
  rw [hw]
  rfl

/-- Evaluating a confidence with a truthful table answers with the confidence of the symbol which the name stands for, when this is
the symbol itself or has been evaluated before; the table stays truthful. -/
theorem evaluate_of_truthful (h : Truthful c.grid memo) (hscorer : c.scorer = .standard) (ht : c.bearer? p u.id = some t)
    (hknown : t = u ∨ c.Stores memo u p) : ((c.evaluate u p).run.run memo).1 = c.breakdown t p ∧
      Truthful c.grid ((c.evaluate u p).run.run memo).2 ∧ memo.Extends ((c.evaluate u p).run.run memo).2 ∧
      ∀ b, c.breakdown t p = .ok b → c.Stores ((c.evaluate u p).run.run memo).2 u p := by
  cases hw : c.weights with
  | error fault =>
    have hrun : (c.evaluate u p).run.run memo = (.error fault, memo) := by
      unfold evaluate
      rw [hw]
      rfl
    have hbreakdown : c.breakdown t p = .error fault := by
      unfold breakdown
      rw [hw]
      rfl
    rw [hrun, hbreakdown]
    refine ⟨rfl, h, MemoTable.Extends.refl memo, ?_⟩
    intro b hb
    cases hb
  | ok w =>
    rw [run_evaluate hw, breakdown_of_weights hw]
    cases hget : memo.get? (c.key w u p) with
    | some b =>
      rw [MemoTable.memoize_of_get? hget, h.found hscorer hw ht hget]
      exact ⟨rfl, h, MemoTable.Extends.refl memo, fun _ _ => stores_of_get? hw hget⟩
    | none =>
      have hself : t = u := by
        rcases hknown with hself | hstores
        · exact hself
        · obtain ⟨b, hb⟩ := hstores w hw
          rw [hget] at hb
          cases hb
      subst hself
      obtain ⟨memo', hmemoize, hkept⟩ := h.fresh hscorer hw ht hget
      rw [hmemoize]
      exact ⟨rfl, hkept⟩

end Context

end TokenForest
