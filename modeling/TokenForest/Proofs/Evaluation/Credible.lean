import TokenForest.Proofs.Confidence.Settled
import TokenForest.Proofs.Evaluation.Keeps
import TokenForest.Proofs.Evaluation.Truth
import TokenForest.Session

/-!
# What any scorer leaves in the table

Whatever the scorer is, a table of confidences that is filled in one context holds settled confidences only, and under the name of the
symbol of a cell the confidence of this symbol. Other symbols that are evaluated at a position do not have its name.
-/

namespace TokenForest

namespace Context

variable {c : Context} {p : Position} {s : Symbol} {w : Weights} {b : Breakdown} {memo : Memo}

theorem credible_empty : c.Credible .empty where
  settled := by
    intro e he
    cases he
  own := by
    intro w p s b _ _ hget
    cases hget

/-- Storing a confidence keeps a table credible, when its name is not that of the symbol in the cell or it is the confidence of this
symbol. -/
theorem Credible.store (h : c.Credible memo) (hw : c.weights = .ok w)
    (hname : ∀ t, c.grid.symbolAt? p = some t → s.id = t.id → s = t) (hb : c.breakdownWith w s p = .ok b) (misses : Nat) :
    c.Credible { memo with entries := memo.entries ++ [(c.key w s p, b)], misses := misses } where
  settled := by
    intro e he
    rcases List.mem_append.1 he with he | he
    · exact h.settled e he
    · rw [List.mem_singleton.1 he]
      exact settled_of_breakdownWith hb
  own := by
    intro w' p' t b' hw' ht hget
    unfold MemoTable.get? at hget
    rw [List.lookup_append, Option.or_eq_some_iff] at hget
    rcases hget with hget | ⟨_, hget⟩
    · exact h.own w' p' t b' hw' ht hget
    · rw [List.lookup_cons] at hget
      split at hget
      · rename_i hsame
        cases hget
        obtain ⟨hid, hp, _⟩ := EvaluationKey.mk.injEq .. ▸ eq_of_beq hsame
        subst hp
        cases hw.symm.trans hw'
        rw [← hname t ht hid.symm]
        exact hb
      · cases hget

/-- Evaluating a symbol that is the one in the cell or has another name answers with a settled confidence, for the symbol in the cell
with its own, and keeps a table credible. -/
theorem evaluate_credible (hname : ∀ t, c.grid.symbolAt? p = some t → s.id = t.id → s = t) :
    (c.evaluate s p).Keeps c.Credible (fun b => b.psi.Settled ∧ (c.grid.symbolAt? p = some s → c.breakdown s p = .ok b)) := by
  intro memo hmemo
  cases hw : c.weights with
  | error fault =>
    have hrun : (c.evaluate s p).run.run memo = (.error fault, memo) := by
      unfold evaluate
      rw [hw]
      rfl
    rw [hrun]
    refine ⟨hmemo, ?_⟩
    intro b hb
    cases hb
  | ok w =>
    rw [run_evaluate hw, breakdown_of_weights hw]
    cases hget : memo.get? (c.key w s p) with
    | some b =>
      have hfound := hmemo.settled _ (MemoTable.mem_of_get? hget)
      rw [MemoTable.memoize_of_get? hget]
      refine ⟨⟨hmemo.settled, hmemo.own⟩, ?_⟩
      intro b' hb'
      cases hb'
      exact ⟨hfound, fun hs => hmemo.own w p s b hw hs hget⟩
    | none =>
      cases hb : c.breakdownWith w s p with
      | error fault =>
        have hmemoize : memo.memoize (fun _ => false) (c.key w s p) (fun _ => (Except.error fault : Except Fault Breakdown)) =
            (.error fault, memo) := MemoTable.memoize_of_error hget rfl
        rw [hmemoize]
        refine ⟨hmemo, ?_⟩
        intro b hb
        cases hb
      | ok b =>
        have hmemoize : memo.memoize (fun _ => false) (c.key w s p) (fun _ => (Except.ok b : Except Fault Breakdown)) =
            (.ok b, { memo with entries := memo.entries ++ [(c.key w s p, b)], misses := memo.misses + 1 }) :=
          MemoTable.memoize_of_fresh hget rfl
        rw [hmemoize]
        refine ⟨hmemo.store hw hname hb _, ?_⟩
        intro b' hb'
        cases hb'
        exact ⟨settled_of_breakdownWith hb, fun _ => rfl⟩

/-- The symbol in a cell is evaluated with its own confidence. -/
theorem evaluate_credible_self (hs : c.grid.symbolAt? p = some s) :
    (c.evaluate s p).Keeps c.Credible (fun b => c.breakdown s p = .ok b) := by
  have hname : ∀ t, c.grid.symbolAt? p = some t → s.id = t.id → s = t := fun t ht _ => Option.some.inj (hs.symm.trans ht)
  exact (evaluate_credible hname).mono fun b hb => hb.2 hs

/-- Another reading of the symbol in a cell is evaluated with a settled confidence. -/
theorem evaluate_credible_reread (hs : c.grid.symbolAt? p = some s) (r : Reading) :
    (c.evaluate (Resolution.reread s r) p).Keeps c.Credible (fun b => b.psi.Settled) := by
  have hname : ∀ t, c.grid.symbolAt? p = some t → (Resolution.reread s r).id = t.id → Resolution.reread s r = t := by
    intro t ht hid
    cases hs.symm.trans ht
    exact absurd hid (Resolution.id_reread_ne_id s r)
  exact (evaluate_credible hname).mono fun b hb => hb.1

end Context

end TokenForest
