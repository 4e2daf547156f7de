import Mathlib.Data.List.Basic

/-!
# Parts of texts

How a text that was put together is taken apart again: a run of characters of one kind ends where another kind begins, and joined parts
stand one after the other with the mark between them.
-/

namespace TokenForest

/-- A run of characters of one kind is taken whole, up to a character of another kind. -/
theorem takeWhile_append_stop {α : Type} {p : α → Bool} {run rest : List α} (hrun : ∀ a ∈ run, p a = true)
    (hrest : ∀ a ∈ rest.head?, p a = false) : (run ++ rest).takeWhile p = run ∧ (run ++ rest).dropWhile p = rest := by
  rw [List.takeWhile_append_of_pos hrun, List.dropWhile_append_of_pos hrun]
  cases rest with
  | nil => simp
  | cons a rest => simp [hrest a rfl]

/-- Joined parts, each but the first one with the mark in front of it. -/
theorem toList_intercalate_cons (mark first : String) (parts : List String) : (String.intercalate mark (first :: parts)).toList =
    first.toList ++ parts.flatMap (fun part => mark.toList ++ part.toList) := by
  induction parts generalizing first with
  | nil => simp
  | cons part parts ih =>
    rw [String.intercalate_cons_cons, String.toList_append, String.toList_append, ih, List.flatMap_cons]
    simp only [List.append_assoc]

end TokenForest
