import TokenForest.Proofs.MemoTable
import TokenForest.Proofs.Outcomes

/-!
# Tables with other keys

The confidences of one grammar are stored under keys of this grammar. Two computations match when they answer the same, the one with
any table of the one grammar, the other one with the same table under keys of another grammar, and leave such tables again.
-/

namespace TokenForest

namespace MemoTable

variable {κ κ' ν ε : Type} {t : MemoTable κ ν} {f : κ → κ'} {key : κ}

/-- The table with other keys. -/
def rekey (f : κ → κ') (t : MemoTable κ ν) : MemoTable κ' ν := { t with entries := t.entries.map fun e => (f e.1, e.2) }

theorem rekey_empty (f : κ → κ') : (empty : MemoTable κ ν).rekey f = empty := rfl

variable [DecidableEq κ] [DecidableEq κ']

/-- A value is found under the other key where no other stored key becomes the same. -/
theorem get?_rekey (h : ∀ e ∈ t.entries, f key = f e.1 → key = e.1) : (t.rekey f).get? (f key) = t.get? key := by
  unfold get? rekey
  simp only
  generalize t.entries = entries at h
  induction entries with
  | nil => rfl
  | cons e entries ih =>
    obtain ⟨he, hrest⟩ := List.forall_mem_cons.1 h
    rw [List.map_cons, List.lookup_cons, List.lookup_cons, ih hrest]
    by_cases hkey : key = e.1
    · simp [hkey]
    · have hne : f key ≠ f e.1 := fun heq => hkey (he heq)
      simp [beq_false_of_ne hkey, beq_false_of_ne hne]

/-- Asking for the value of a key leaves the stored ones, and perhaps the key with its value. -/
theorem mem_memoize {isNull : ν → Bool} {compute : Unit → Except ε ν} {e : κ × ν}
    (h : e ∈ (t.memoize isNull key compute).2.entries) : e ∈ t.entries ∨ e.1 = key := by
  unfold memoize at h
  split at h
  · exact .inl h
  · split at h
    · exact .inl h
    · simp only [store] at h
      split at h
      · exact .inl h
      · rcases List.mem_append.1 h with h | h
        · exact .inl h
        · obtain rfl := List.mem_singleton.1 h
          exact .inr rfl

/-- Asking for the value of the other key does the same to the table with the other keys. -/
theorem memoize_rekey (isNull : ν → Bool) (compute : Unit → Except ε ν) (h : ∀ e ∈ t.entries, f key = f e.1 → key = e.1) :
    (t.rekey f).memoize isNull (f key) compute =
      ((t.memoize isNull key compute).1, (t.memoize isNull key compute).2.rekey f) := by
  have hget := get?_rekey h
  unfold memoize answer?
  rw [hget]
  cases (t.get? key).filter (fun v => !isNull v) with
  | some v => rfl
  | none =>
    cases compute () with
    | error fault => rfl
    | ok v =>
      simp only [store, hget]
      cases t.get? key with
      | some w => rfl
      | none => simp [rekey]

end MemoTable

namespace Evaluating

variable {α β γ : Type} {g g' : Grammar} {memo : Memo}

/-- The key with another grammar. -/
def onto (g : Grammar) (key : EvaluationKey) : EvaluationKey := { key with grammar := g }

/-- All confidences in the table are of one grammar. -/
def OfGrammar (g : Grammar) (memo : Memo) : Prop := ∀ e ∈ memo.entries, e.1.grammar = g

theorem onto_injOn {key key' : EvaluationKey} (hkey : key.grammar = g) (hkey' : key'.grammar = g) (h : onto g' key = onto g' key') :
    key = key' := by
  cases key
  cases key'
  simp only [onto, EvaluationKey.mk.injEq] at h
  obtain ⟨rfl, rfl, rfl, rfl, _, rfl⟩ := h
  cases hkey
  cases hkey'
  rfl

/-- With a table of one grammar the one computation answers as the other one does with the same table under keys of the other grammar,
and the tables that they leave are again the same but for the grammar. -/
def Matches (g g' : Grammar) (x y : Evaluating α) : Prop :=
  ∀ memo, OfGrammar g memo → OfGrammar g (x.run.run memo).2 ∧
    y.run.run (memo.rekey (onto g')) = ((x.run.run memo).1, (x.run.run memo).2.rekey (onto g'))

namespace Matches

theorem pure (a : α) : Matches g g' (Pure.pure a) (Pure.pure a) := fun _ h => ⟨h, rfl⟩

theorem lift (r : Except Fault α) : Matches g g' (Evaluating.lift r) (Evaluating.lift r) := fun _ h => ⟨h, rfl⟩

/-- The second computations have to match only at what the first one can answer. -/
theorem bind_of {x y : Evaluating α} {f f' : α → Evaluating β} (h : Matches g g' x y)
    (hf : ∀ memo a, (x.run.run memo).1 = .ok a → Matches g g' (f a) (f' a)) : Matches g g' (x >>= f) (y >>= f') := by
  intro memo hmemo
  obtain ⟨hleft, hsame⟩ := h memo hmemo
  rw [run_bind, run_bind, hsame]
  cases hx : (x.run.run memo).1 with
  | error fault => exact ⟨hleft, rfl⟩
  | ok a => exact hf memo a hx _ hleft

theorem bind {x y : Evaluating α} {f f' : α → Evaluating β} (h : Matches g g' x y) (hf : ∀ a, Matches g g' (f a) (f' a)) :
    Matches g g' (x >>= f) (y >>= f') :=
  h.bind_of fun _ a _ => hf a

theorem ite {P : Prop} [Decidable P] {x x' y y' : Evaluating α} (h : Matches g g' x y) (h' : Matches g g' x' y') :
    Matches g g' (if P then x else x') (if P then y else y') := by
  split
  · exact h
  · exact h'

theorem mapM {f f' : α → Evaluating β} {as : List α} (h : ∀ a ∈ as, Matches g g' (f a) (f' a)) : Matches g g' (as.mapM f) (as.mapM f') := by
  induction as with
  | nil => exact pure []
  | cons a as ih =>
    obtain ⟨ha, has⟩ := List.forall_mem_cons.1 h
    rw [List.mapM_cons, List.mapM_cons]
    exact ha.bind fun _ => (ih has).bind fun _ => pure _

/-- Computations that are all run match when they do one by one. -/
theorem runAll {f f' : α → Evaluating β} {as : List α} (h : ∀ a ∈ as, Matches g g' (f a) (f' a)) :
    Matches g g' (Evaluating.runAll (as.map f)) (Evaluating.runAll (as.map f')) := by
  have hall : ∀ memo, OfGrammar g memo → OfGrammar g (((as.map f).mapM ExceptT.run).run memo).2 ∧
      ((as.map f').mapM ExceptT.run).run (memo.rekey (onto g')) =
        ((((as.map f).mapM ExceptT.run).run memo).1, (((as.map f).mapM ExceptT.run).run memo).2.rekey (onto g')) := by
    induction as with
    | nil => exact fun memo hmemo => ⟨hmemo, rfl⟩
    | cons a as ih =>
      obtain ⟨ha, has⟩ := List.forall_mem_cons.1 h
      intro memo hmemo
      obtain ⟨hleft, hsame⟩ := ha memo hmemo
      obtain ⟨hrest, hsames⟩ := ih has _ hleft
      rw [List.map_cons, List.map_cons, run_results_cons, run_results_cons, hsame, hsames]
      exact ⟨hrest, rfl⟩
  intro memo hmemo
  obtain ⟨hleft, hsame⟩ := hall memo hmemo
  rw [run_runAll, run_runAll, hsame]
  exact ⟨hleft, rfl⟩

end Matches

/-- A confidence that is the same by two grammars is asked for in matching ways. -/
theorem matches_evaluate {c c' : Context} {s : Symbol} {p : Position} (hconfig : c'.config = c.config) (hscorer : c'.scorer = c.scorer)
    (h : ∀ w, c'.breakdownWith w s p = c.breakdownWith w s p) :
    Matches c.grammar c'.grammar (c.evaluate s p) (c'.evaluate s p) := by
  have hweights : c'.weights = c.weights := by
    unfold Context.weights
    rw [hconfig]
  have hkey : ∀ w, c'.key w s p = onto c'.grammar (c.key w s p) := by
    intro w
    unfold Context.key onto
    rw [hconfig, hscorer]
  unfold Context.evaluate
  rw [hweights]
  refine (Matches.lift c.weights).bind fun w memo hmemo => ?_
  refine ⟨fun e he => ?_, ?_⟩
  · have hmem : e ∈ (memo.memoize (fun _ => false) (c.key w s p) (fun _ => c.breakdownWith w s p)).2.entries := he
    rcases MemoTable.mem_memoize hmem with hold | hnew
    · exact hmemo e hold
    · rw [hnew]
      rfl
  · have hinj : ∀ e ∈ memo.entries, onto c'.grammar (c.key w s p) = onto c'.grammar e.1 → c.key w s p = e.1 :=
      fun e he => onto_injOn rfl (hmemo e he)
    have hsame := MemoTable.memoize_rekey (fun _ => false) (fun _ => c.breakdownWith w s p) hinj
    rw [← hkey] at hsame
    change (memo.rekey (onto c'.grammar)).memoize (fun _ => false) (c'.key w s p) (fun _ => c'.breakdownWith w s p) = _
    rw [h]
    exact hsame

end Evaluating

end TokenForest
