import TokenForest.Assembly

/-!
# Intents in rows

An index of a row has an intent, the one that a number of any size names. Some hints settle it whatever stands beside the symbol.
-/

namespace TokenForest

namespace Intents

variable {grammar : Grammar} {row : List Symbol} {index : Nat} {s : Symbol} {intent : Intent}

/-! ## Indexes -/

theorem intentIn_eq (grammar : Grammar) (row : List Symbol) (index : Fin row.length) :
    intentIn grammar row index = classify grammar row index := by
  unfold intentIn classify
  rw [List.getElem?_eq_getElem index.isLt]
  rfl

/-- Asking for the intent at an index of the row does not fail. -/
theorem classify?_eq (h : index < row.length) : classify? grammar row index = .ok (classify grammar row index) := by
  unfold classify?
  rw [dif_pos h, intentIn_eq]

/-! ## Hints -/

/-- A hint that settles the intent of a row settles that of its symbol, whatever stands beside it. -/
theorem ofSymbol_of_mem (h : (s.hint, intent) ∈ statementPriority) (left right : Option Symbol) (statement : Intent) :
    ofSymbol grammar left s right statement = intent := by
  unfold statementPriority at h
  simp only [List.mem_cons, Prod.mk.injEq, List.not_mem_nil, or_false] at h
  unfold ofSymbol
  rcases h with ⟨hhint, rfl⟩ | ⟨hhint, rfl⟩ | ⟨hhint, rfl⟩ | ⟨hhint, rfl⟩ | ⟨hhint, rfl⟩ | ⟨hhint, rfl⟩ <;> rw [hhint]

theorem classify_of_mem (hs : row[index]? = some s) (h : (s.hint, intent) ∈ statementPriority) :
    classify grammar row index = intent := by
  unfold classify
  rw [hs]
  exact ofSymbol_of_mem h _ _ _

theorem ofStatement_mem_all (row : List Symbol) : ofStatement row ∈ Intent.all := by
  have hpriority : ∀ entry ∈ statementPriority, entry.2 ∈ Intent.all := by decide
  unfold ofStatement
  split
  · rename_i entry hentry
    exact hpriority entry (List.mem_of_find?_eq_some hentry)
  · decide

/-- Symbols have intents on the list. -/
theorem classify_mem_all (grammar : Grammar) (row : List Symbol) (index : Nat) : classify grammar row index ∈ Intent.all := by
  have hstatement := ofStatement_mem_all row
  unfold classify
  split
  · decide
  · unfold ofSymbol
    repeat' split
    all_goals first | exact hstatement | decide

end Intents

namespace Assembly

/-- The symbols of a row are classified one by one. -/
theorem classified_eq (grammar : Grammar) (items : List Admitted) : classified grammar items =
    items.mapIdx (fun i item => { item with intent := Intents.classify grammar (items.map (·.symbol)) i }) := by
  unfold classified
  rw [List.mapFinIdx_eq_mapIdx]
  intro i hi
  rw [Intents.intentIn_eq]

end Assembly

end TokenForest
