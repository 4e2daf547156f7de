import TokenForest.Proofs.Evaluation.Runs

/-!
# What computations keep

A computation keeps a property of the table when it leaves a table that has it wherever it started with one; what it answers may
have a property as well. Steps that keep a property are put together into computations that do.
-/

namespace TokenForest

namespace Evaluating

variable {α β : Type}

/-- Started with a table of a kind, the computation leaves one of this kind, also when it fails, and what it answers has a
property. -/
def Keeps (I : Memo → Prop) (x : Evaluating α) (Q : α → Prop) : Prop :=
  ∀ memo, I memo → I (x.run.run memo).2 ∧ ∀ a, (x.run.run memo).1 = .ok a → Q a

namespace Keeps

variable {I : Memo → Prop} {P Q : α → Prop} {R : β → Prop} {x : Evaluating α}

theorem mono (h : Keeps I x P) (hPQ : ∀ a, P a → Q a) : Keeps I x Q := by
  intro memo hmemo
  obtain ⟨hkept, hanswer⟩ := h memo hmemo
  exact ⟨hkept, fun a ha => hPQ a (hanswer a ha)⟩

/-- A run from a table of the kind leaves one, and its answer has the property. -/
theorem of_runs {memo memo' : Memo} {a : α} (h : Keeps I x Q) (hmemo : I memo) (hrun : x.Runs memo a memo') : I memo' ∧ Q a := by
  obtain ⟨hkept, hanswer⟩ := h memo hmemo
  rw [hrun] at hkept hanswer
  exact ⟨hkept, hanswer a rfl⟩

theorem pure {a : α} (h : Q a) : Keeps I (Pure.pure a) Q := by
  intro memo hmemo
  refine ⟨hmemo, ?_⟩
  intro b hb
  cases hb
  exact h

theorem lift {r : Except Fault α} (h : ∀ a, r = .ok a → Q a) : Keeps I (Evaluating.lift r) Q := by
  intro memo hmemo
  exact ⟨hmemo, h⟩

theorem bind {f : α → Evaluating β} (hx : Keeps I x P) (hf : ∀ a, P a → Keeps I (f a) R) : Keeps I (x >>= f) R := by
  intro memo hmemo
  obtain ⟨hkept, hanswer⟩ := hx memo hmemo
  rw [run_bind]
  cases hfirst : (x.run.run memo).1 with
  | error e =>
    refine ⟨hkept, ?_⟩
    intro b hb
    cases hb
  | ok a => exact hf a (hanswer a hfirst) _ hkept

/-- Each result of a list of computations has the property that belongs to what it was computed from. -/
theorem mapM_forall₂ {S : α → β → Prop} {f : α → Evaluating β} {xs : List α} (h : ∀ a ∈ xs, Keeps I (f a) (S a)) :
    Keeps I (xs.mapM f) (fun ys => List.Forall₂ S xs ys) := by
  induction xs with
  | nil =>
    rw [List.mapM_nil]
    exact Keeps.pure .nil
  | cons a xs ih =>
    rw [List.mapM_cons]
    apply (h a (by simp)).bind
    intro b hb
    apply (ih fun a' ha' => h a' (by simp [ha'])).bind
    intro ys hys
    exact Keeps.pure (.cons hb hys)

theorem mapM {f : α → Evaluating β} {xs : List α} (h : ∀ a ∈ xs, Keeps I (f a) R) :
    Keeps I (xs.mapM f) (fun ys => ∀ y ∈ ys, R y) := by
  refine (mapM_forall₂ (S := fun _ => R) h).mono fun ys hys y hy => ?_
  obtain ⟨_, _, hR⟩ := exists_of_forall₂ hys hy
  exact hR

/-- Computations that are all run keep what each of them keeps. -/
theorem runAll {f : α → Evaluating β} {units : List α} (h : ∀ unit ∈ units, Keeps I (f unit) R) :
    Keeps I (Evaluating.runAll (units.map f)) (fun ys => ∀ y ∈ ys, R y) := by
  have hall : ∀ memo, I memo → I (((units.map f).mapM ExceptT.run).run memo).2 ∧
      ∀ r ∈ (((units.map f).mapM ExceptT.run).run memo).1, ∀ b, r = .ok b → R b := by
    induction units with
    | nil =>
      intro memo hmemo
      refine ⟨hmemo, ?_⟩
      intro r hr
      cases hr
    | cons unit units ih =>
      intro memo hmemo
      obtain ⟨hkept, hanswer⟩ := h unit (by simp) memo hmemo
      obtain ⟨hrest, hanswers⟩ := ih (fun u hu => h u (by simp [hu])) _ hkept
      rw [List.map_cons, run_results_cons]
      refine ⟨hrest, ?_⟩
      intro r hr
      rcases List.mem_cons.1 hr with rfl | hr
      · exact hanswer
      · exact hanswers r hr
  intro memo hmemo
  obtain ⟨hkept, hanswers⟩ := hall memo hmemo
  rw [run_runAll]
  refine ⟨hkept, ?_⟩
  intro ys hys y hy
  obtain ⟨r, hr, hry⟩ := exists_of_forall₂ (forall₂_of_mapM hys) hy
  exact hanswers r hr y hry

end Keeps

end Evaluating

end TokenForest
