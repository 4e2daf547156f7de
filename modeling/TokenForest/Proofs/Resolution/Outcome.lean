import TokenForest.Proofs.Evaluation.Truth
import TokenForest.Proofs.Outcomes
import TokenForest.Proofs.Survey.Lookups

/-!
# The outcome of a resolution

What a resolution finds, said without the table of confidences: each reading is weighed with the confidence of the first reading with
its tag. A resolution that starts with a truthful table has this outcome and leaves a truthful table.
-/

namespace TokenForest

namespace Context

variable {c : Context} {p : Position} {s : Symbol}

theorem symbolAt?_of_symbolAt (h : c.symbolAt p = .ok s) : c.grid.symbolAt? p = some s :=
  Grid.cell_eq_ok_iff.1 h

/-- Evaluating the symbol of a cell computes its confidence. -/
theorem evaluate_computes (hscorer : c.scorer = .standard) (hs : c.grid.symbolAt? p = some s) :
    (c.evaluate s p).Computes (Truthful c.grid) (c.breakdown s p) := by
  intro memo hmemo
  obtain ⟨hresult, hkept, _⟩ := evaluate_of_truthful hmemo hscorer (bearer?_self hs) (Or.inl rfl)
  exact ⟨hresult, hkept⟩

end Context

namespace Resolution

open Evaluating

variable {c : Context} {p : Position} {s : Symbol}

/-- A reading of the symbol at a position, weighed with the confidence of the first of some readings with its tag. -/
def tried (c : Context) (n : Grid.Neighborhood) (row : List Symbol) (index : Nat) (original : Intent) (s : Symbol)
    (readings : List Reading) (r : Reading) : Except Fault (Candidate × Option Passing) := do
  let alternative ← (reread s r).check.mapError .symbol
  let b ← c.breakdown (reread s (standIn readings r)) n.position
  return weigh c n row index original r alternative b

/-- The readings of the symbol at a position, all tried. -/
def triedAt (c : Context) (p : Position) (s : Symbol) : Except Fault (List (Candidate × Option Passing)) :=
  (c.readingsAt p s).mapM (tried c (c.grid.neighborhood p) (c.rowAt p) (c.indexAt p) (c.intentAt p) s (c.readingsAt p s))

/-- What a resolution at a position finds. -/
def outcome (c : Context) (p : Position) : Except Fault Resolution := do
  let s ← c.symbolAt p
  let original ← c.breakdown s p
  let tried ← triedAt c p s
  return ofTried original (c.intentAt p) tried

/-- A reading is evaluated first or behind the first one with its tag. -/
theorem standIn_of_append {front back : List Reading} {r : Reading} :
    standIn (front ++ r :: back) r = r ∨ ∃ r' ∈ front, r'.typeTag = r.typeTag := by
  unfold standIn
  rw [List.find?_append]
  cases hfront : front.find? (fun r' => decide (r'.typeTag = r.typeTag)) with
  | some r' => exact Or.inr ⟨r', List.mem_of_find?_eq_some hfront, by simpa using List.find?_some hfront⟩
  | none => simp

/-- The first reading under the tag of one that is tried is tried, and has the tag. -/
theorem standIn_mem {readings : List Reading} {r : Reading} (h : r ∈ readings) :
    standIn readings r ∈ readings ∧ (standIn readings r).typeTag = r.typeTag := by
  unfold standIn
  cases hfirst : readings.find? (fun r' => decide (r'.typeTag = r.typeTag)) with
  | none => exact ⟨h, rfl⟩
  | some first => exact ⟨List.mem_of_find?_eq_some hfirst, by simpa using List.find?_some hfirst⟩

/-- A reading is weighed with the confidence of the first reading with its tag, when it is the first one itself or has been evaluated
before; its confidence is stored then. -/
theorem tryReading_of_truthful (hscorer : c.scorer = .standard) (hs : c.grid.symbolAt? p = some s) {row : List Symbol}
    {index : Nat} (hindex : index < row.length) (original : Intent) {r : Reading} (hr : r ∈ c.readingsAt p s) {memo memo' : Memo}
    {result : Except Fault (Candidate × Option Passing)} (hmemo : Context.Truthful c.grid memo)
    (hknown : reread s (standIn (c.readingsAt p s) r) = reread s r ∨ c.Stores memo (reread s r) p)
    (hrun : (tryReading c (c.grid.neighborhood p) row index original s r).run.run memo = (result, memo')) :
    result = tried c (c.grid.neighborhood p) row index original s (c.readingsAt p s) r ∧ Context.Truthful c.grid memo' ∧
      memo.Extends memo' ∧ ∀ a, result = .ok a → c.Stores memo' (reread s r) p := by
  rw [tryReading_eq p hindex] at hrun
  unfold tried
  cases hcheck : (reread s r).check.mapError Fault.symbol with
  | error fault =>
    rw [hcheck] at hrun
    cases hrun
    refine ⟨rfl, hmemo, MemoTable.Extends.refl memo, ?_⟩
    intro a ha
    cases ha
  | ok alternative =>
    obtain rfl := Symbol.eq_of_check (ok_of_mapError hcheck)
    obtain ⟨hresult, hkept, hextends, hstores⟩ :=
      Context.evaluate_of_truthful hmemo hscorer (Context.bearer?_reread hs hr) hknown
    have hevaluate : (c.evaluate (reread s r) (c.grid.neighborhood p).position >>= fun b =>
        (pure (weigh c (c.grid.neighborhood p) row index original r (reread s r) b) : Evaluating _)).run.run memo =
        (result, memo') := by
      rw [hcheck] at hrun
      exact hrun
    have hresult' : ((c.evaluate (reread s r) (c.grid.neighborhood p).position).run.run memo).1 =
        c.breakdown (reread s (standIn (c.readingsAt p s) r)) (c.grid.neighborhood p).position := hresult
    rw [run_bind, hresult'] at hevaluate
    change result = (c.breakdown (reread s (standIn (c.readingsAt p s) r)) (c.grid.neighborhood p).position >>= fun b =>
      pure (weigh c (c.grid.neighborhood p) row index original r (reread s r) b)) ∧ _
    cases hb : c.breakdown (reread s (standIn (c.readingsAt p s) r)) (c.grid.neighborhood p).position with
    | error fault =>
      rw [hb] at hevaluate
      cases hevaluate
      refine ⟨rfl, hkept, hextends, ?_⟩
      intro a ha
      cases ha
    | ok b =>
      rw [hb] at hevaluate
      cases hevaluate
      exact ⟨rfl, hkept, hextends, fun _ _ => hstores b hb⟩

/-- The readings behind those whose confidences are stored are weighed with the confidences of the first ones with their tags. -/
theorem tryReadings_of_truthful (hscorer : c.scorer = .standard) (hs : c.grid.symbolAt? p = some s) {row : List Symbol}
    {index : Nat} (hindex : index < row.length) (original : Intent) {front rest : List Reading} (hreadings : c.readingsAt p s = front ++ rest) :
    (rest.mapM (tryReading c (c.grid.neighborhood p) row index original s)).Computes
      (fun memo => Context.Truthful c.grid memo ∧ ∀ r ∈ front, c.Stores memo (reread s r) p)
      (rest.mapM (tried c (c.grid.neighborhood p) row index original s (c.readingsAt p s))) := by
  induction rest generalizing front with
  | nil => exact Computes.pure []
  | cons r rest ih =>
    rw [List.mapM_cons, List.mapM_cons]
    rintro memo ⟨hmemo, hfront⟩
    have hknown : reread s (standIn (c.readingsAt p s) r) = reread s r ∨ c.Stores memo (reread s r) p := by
      rw [hreadings]
      have hfirst : standIn (front ++ r :: rest) r = r ∨ ∃ r' ∈ front, r'.typeTag = r.typeTag := standIn_of_append
      rcases hfirst with hself | ⟨r', hr', htag⟩
      · exact Or.inl (by rw [hself])
      · refine Or.inr fun w hw => ?_
        rw [← Context.key_of_id (id_reread_eq_iff.2 htag)]
        exact hfront r' hr' w hw
    rw [run_bind]
    cases hrun : (tryReading c (c.grid.neighborhood p) row index original s r).run.run memo with
    | mk result memo' =>
      obtain ⟨hresult, hkept, hextends, hstores⟩ :=
        tryReading_of_truthful hscorer hs hindex original (by simp [hreadings]) hmemo hknown hrun
      have hfront' : ∀ r' ∈ front, c.Stores memo' (reread s r') p := fun r' hr' => (hfront r' hr').mono hextends
      rw [← hresult]
      cases result with
      | error fault => exact ⟨rfl, hkept, hfront'⟩
      | ok a =>
        have hnext : ∀ r' ∈ front ++ [r], c.Stores memo' (reread s r') p := by
          intro r' hr'
          rcases List.mem_append.1 hr' with hr' | hr'
          · exact hfront' r' hr'
          · rw [List.mem_singleton.1 hr']
            exact hstores a rfl
        have hreadings' : c.readingsAt p s = (front ++ [r]) ++ rest := by simp [hreadings]
        have hrest := (ih hreadings').bind
          (fun bs _ => Computes.pure (a :: bs)) memo' ⟨hkept, hnext⟩
        exact ⟨hrest.1, hrest.2.1, fun r' hr' => hrest.2.2 r' (List.mem_append_left _ hr')⟩

/-- A resolution computes its outcome. -/
theorem resolve_computes (hscorer : c.scorer = .standard) (p : Position) :
    (resolve c p).Computes (Context.Truthful c.grid) (outcome c p) := by
  rw [resolve_eq]
  unfold outcome
  refine (Computes.lift _).bind fun s hs => ?_
  have hsymbol := Context.symbolAt?_of_symbolAt hs
  refine (Context.evaluate_computes hscorer hsymbol).bind fun original _ => ?_
  refine Computes.bind ?_ fun tried _ => Computes.pure _
  intro memo hmemo
  have hreadings : c.readingsAt p s = [] ++ c.readingsAt p s := rfl
  obtain ⟨hresult, hkept, _⟩ := tryReadings_of_truthful hscorer hsymbol (Context.indexAt_lt hsymbol) _ hreadings memo ⟨hmemo, by simp⟩
  exact ⟨hresult, hkept⟩

end Resolution

end TokenForest
