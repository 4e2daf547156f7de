import Mathlib.Data.List.Perm.Basic
import TokenForest.Evaluation

/-!
# Outcomes of computations

How a computation that has a result came to it, step by step. A computation that uses the table of confidences produces a
value when it answers with it for some state of the table, so what a value tells about its computation does not depend on what
had been computed before. And computations with one result, which does not depend on the table of a kind that they start with:
`x.Computes I r` names the result and says that a table of the kind is left. Computations put together have the results of their parts
put together.
-/

namespace TokenForest

variable {α β ε ε' : Type}

/-! ## Computations that may fail -/

theorem ok_bind (a : α) (f : α → Except ε β) : ((Except.ok a : Except ε α) >>= f) = f a := rfl

theorem mapError_ok (a : α) (f : ε → ε') : (Except.ok a : Except ε α).mapError f = .ok a := rfl

theorem ok_of_bind {x : Except ε α} {f : α → Except ε β} {b : β} (h : (x >>= f) = .ok b) : ∃ a, x = .ok a ∧ f a = .ok b := by
  cases x with
  | error e => cases h
  | ok a => exact ⟨a, rfl, h⟩

/-- Computations that go on alike from what a first step can answer are the same. -/
theorem bind_congr_of_ok {x : Except ε α} {f f' : α → Except ε β} (h : ∀ a, x = .ok a → f a = f' a) : (x >>= f) = (x >>= f') := by
  cases x with
  | error e => rfl
  | ok a => exact h a rfl

theorem ok_of_mapError {x : Except ε α} {f : ε → ε'} {a : α} (h : x.mapError f = .ok a) : x = .ok a := by
  cases x with
  | error e => cases h
  | ok b =>
    cases h
    rfl

theorem ok_of_map {x : Except ε α} {f : α → β} {b : β} (h : x.map f = .ok b) : ∃ a, x = .ok a ∧ f a = b := by
  cases x with
  | error e => cases h
  | ok a => exact ⟨a, rfl, Except.ok.inj h⟩

theorem forall₂_of_mapM {f : α → Except ε β} {xs : List α} {ys : List β} (h : xs.mapM f = .ok ys) :
    List.Forall₂ (fun x y => f x = .ok y) xs ys := by
  induction xs generalizing ys with
  | nil =>
    cases h
    exact .nil
  | cons x xs ih =>
    rw [List.mapM_cons] at h
    obtain ⟨y, hy, h⟩ := ok_of_bind h
    obtain ⟨rest, hrest, h⟩ := ok_of_bind h
    cases h
    exact .cons hy (ih hrest)

theorem mapM_of_forall₂ {f : α → Except ε β} {xs : List α} {ys : List β} (h : List.Forall₂ (fun x y => f x = .ok y) xs ys) :
    xs.mapM f = .ok ys := by
  induction h with
  | nil => rfl
  | cons hx _ ih =>
    rw [List.mapM_cons, hx, ok_bind, ih]
    rfl

/-- Checks of all elements pass when the check of each one does. -/
theorem forM_eq_ok_iff {f : α → Except ε Unit} {xs : List α} : xs.forM f = .ok () ↔ ∀ x ∈ xs, f x = .ok () := by
  induction xs with
  | nil => exact iff_of_true rfl (by simp)
  | cons x xs ih =>
    change (f x >>= fun _ => xs.forM f) = .ok () ↔ _
    rw [List.forall_mem_cons]
    constructor
    · intro h
      obtain ⟨_, hx, hxs⟩ := ok_of_bind h
      exact ⟨hx, ih.1 hxs⟩
    · rintro ⟨hx, hxs⟩
      rw [hx, ok_bind]
      exact ih.2 hxs

/-- In another order the same results come in another order. -/
theorem exists_mapM_of_perm {f : α → Except ε β} {xs xs' : List α} {ys : List β} (hperm : xs'.Perm xs) (h : xs.mapM f = .ok ys) :
    ∃ ys', xs'.mapM f = .ok ys' ∧ ys'.Perm ys := by
  obtain ⟨ys', hys', hsame⟩ := List.perm_comp_forall₂ hperm (forall₂_of_mapM h)
  exact ⟨ys', mapM_of_forall₂ hys', hsame⟩

/-- Computations whose results are the same after a map, and whose next steps are so, too, have such results together. -/
theorem map_bind_congr {γ δ : Type} {f : α → γ} {g : β → δ} {x x' : Except ε α} {k k' : α → Except ε β} (hx : x.map f = x'.map f)
    (hk : ∀ a a', f a = f a' → (k a).map g = (k' a').map g) : (x >>= k).map g = (x' >>= k').map g := by
  cases x with
  | error e =>
    cases x' with
    | error e' =>
      cases hx
      rfl
    | ok a' => cases hx
  | ok a =>
    cases x' with
    | error e' => cases hx
    | ok a' => exact hk a a' (Except.ok.inj hx)

theorem toOption_mapError (x : Except ε α) (f : ε → ε') : (x.mapError f).toOption = x.toOption := by
  cases x <;> rfl

theorem toOption_error_bind (e : ε) (k : α → Except ε β) : ((Except.error e : Except ε α) >>= k).toOption = none := rfl

/-- Computations that agree but for their failures, and whose next steps do so after a map, do so together. -/
theorem toOption_bind_congr {γ : Type} {g : β → γ} {x : Except ε α} {x' : Except ε' α} {k : α → Except ε β} {k' : α → Except ε' β}
    (hx : x.toOption = x'.toOption) (hk : ∀ a, x = .ok a → (k a).toOption.map g = (k' a).toOption.map g) :
    (x >>= k).toOption.map g = (x' >>= k').toOption.map g := by
  cases x with
  | error e =>
    cases x' with
    | error e' => rfl
    | ok a' => cases hx
  | ok a =>
    cases x' with
    | error e' => cases hx
    | ok a' =>
      cases hx
      exact hk a rfl

theorem map_mapM_congr {γ : Type} {g : β → γ} {k k' : α → Except ε β} {xs : List α} (h : ∀ a ∈ xs, (k a).map g = (k' a).map g) :
    (xs.mapM k).map (List.map g) = (xs.mapM k').map (List.map g) := by
  induction xs with
  | nil => rfl
  | cons a as ih =>
    rw [List.mapM_cons, List.mapM_cons]
    refine map_bind_congr (h a (by simp)) fun b b' hb => ?_
    refine map_bind_congr (ih fun a' ha' => h a' (by simp [ha'])) fun bs bs' hbs => ?_
    change Except.ok ((b :: bs).map g) = Except.ok ((b' :: bs').map g)
    rw [List.map_cons, List.map_cons, hb, hbs]

theorem mapM_eq_some_iff {f : α → Option β} {xs : List α} {ys : List β} :
    xs.mapM f = some ys ↔ List.Forall₂ (fun x y => f x = some y) xs ys := by
  induction xs generalizing ys with
  | nil => simp [eq_comm]
  | cons x xs ih =>
    rw [List.mapM_cons, Option.bind_eq_bind, Option.bind_eq_some_iff, List.forall₂_cons_left_iff]
    refine exists_congr fun y => ?_
    simp [Option.bind_eq_some_iff, ih, eq_comm (b := ys)]

theorem mem_of_mapM_eq_some {f : α → Option β} {xs : List α} {ys : List β} (h : xs.mapM f = some ys) {y : β} :
    y ∈ ys ↔ ∃ x ∈ xs, f x = some y := by
  rw [mapM_eq_some_iff] at h
  induction h with
  | nil => simp
  | cons hx _ ih => simp [hx, ih, eq_comm]

/-- Where every element has a result, all of them have. -/
theorem exists_mapM_eq_some {f : α → Option β} {xs : List α} (h : ∀ x ∈ xs, ∃ y, f x = some y) : ∃ ys, xs.mapM f = some ys := by
  induction xs with
  | nil => exact ⟨[], rfl⟩
  | cons x xs ih =>
    obtain ⟨y, hy⟩ := h x (by simp)
    obtain ⟨ys, hys⟩ := ih fun z hz => h z (by simp [hz])
    exact ⟨y :: ys, by rw [List.mapM_cons, hy, hys]; rfl⟩

/-- Every result belongs to one of the things it was computed from. -/
theorem exists_of_forall₂ {R : α → β → Prop} {xs : List α} {ys : List β} (h : List.Forall₂ R xs ys) {y : β}
    (hy : y ∈ ys) : ∃ x ∈ xs, R x y := by
  induction h with
  | nil => simp at hy
  | cons hxy _ ih =>
    rcases List.mem_cons.1 hy with rfl | hy
    · exact ⟨_, by simp, hxy⟩
    · obtain ⟨x, hx, hR⟩ := ih hy
      exact ⟨x, by simp [hx], hR⟩

/-- Everything that results were computed from has one of the results. -/
theorem exists_of_forall₂_left {R : α → β → Prop} {xs : List α} {ys : List β} (h : List.Forall₂ R xs ys) {x : α}
    (hx : x ∈ xs) : ∃ y ∈ ys, R x y := exists_of_forall₂ h.flip hx

namespace Evaluating

/-! ## Computations that use the table -/

theorem run_bind (x : Evaluating α) (f : α → Evaluating β) (memo : Memo) :
    (x >>= f).run.run memo = (ExceptT.bindCont f (x.run.run memo).1).run (x.run.run memo).2 := rfl

theorem run_runAll (units : List (Evaluating α)) (memo : Memo) : (runAll units).run.run memo =
    (((units.mapM ExceptT.run).run memo).1.mapM id, ((units.mapM ExceptT.run).run memo).2) := rfl

/-- Each computation is run with the table that the one before leaves, also behind one that fails. -/
theorem run_results_cons (unit : Evaluating α) (units : List (Evaluating α)) (memo : Memo) :
    ((unit :: units).mapM ExceptT.run).run memo =
      ((unit.run.run memo).1 :: ((units.mapM ExceptT.run).run (unit.run.run memo).2).1,
        ((units.mapM ExceptT.run).run (unit.run.run memo).2).2) := by
  rw [List.mapM_cons]
  rfl

theorem produces_of_run {x : Evaluating α} {a : α} {memo : Memo} (h : (x.run.run memo).1 = .ok a) : x.Produces a :=
  ⟨memo, _, Prod.ext h rfl⟩

theorem Produces.bind {x : Evaluating α} {f : α → Evaluating β} {b : β} (h : Produces (x >>= f) b) :
    ∃ a, x.Produces a ∧ (f a).Produces b := by
  obtain ⟨memo, memo', h⟩ := h
  rw [run_bind] at h
  cases hx : (x.run.run memo).1 with
  | error e =>
    rw [hx] at h
    cases h
  | ok a =>
    rw [hx] at h
    exact ⟨a, produces_of_run hx, ⟨_, memo', h⟩⟩

theorem Produces.pure {a b : α} (h : Produces (Pure.pure a : Evaluating α) b) : b = a := by
  obtain ⟨memo, memo', h⟩ := h
  cases h
  rfl

theorem Produces.lift {r : Except Fault α} {a : α} (h : (Evaluating.lift r).Produces a) : r = .ok a := by
  obtain ⟨memo, memo', h⟩ := h
  exact congrArg Prod.fst h

theorem Produces.mapM {f : α → Evaluating β} {xs : List α} {ys : List β} (h : Produces (xs.mapM f) ys) :
    List.Forall₂ (fun x y => (f x).Produces y) xs ys := by
  induction xs generalizing ys with
  | nil =>
    obtain rfl := Produces.pure h
    exact .nil
  | cons x xs ih =>
    rw [List.mapM_cons] at h
    obtain ⟨y, hy, h⟩ := h.bind
    obtain ⟨rest, hrest, h⟩ := h.bind
    obtain rfl := Produces.pure h
    exact .cons hy (ih hrest)

/-- The results of computations that are all run are the results of each. -/
theorem Produces.runAll {units : List (Evaluating α)} {ys : List α} (h : (runAll units).Produces ys) :
    List.Forall₂ (fun unit y => unit.Produces y) units ys := by
  obtain ⟨memo, memo', h⟩ := h
  rw [run_runAll, Prod.mk.injEq] at h
  have hresults : ∀ (units : List (Evaluating α)) (memo : Memo),
      List.Forall₂ (fun unit r => ∃ memo memo', unit.run.run memo = (r, memo')) units ((units.mapM ExceptT.run).run memo).1 := by
    intro units
    induction units with
    | nil => intro memo; exact .nil
    | cons unit units ih =>
      intro memo
      rw [run_results_cons]
      exact .cons ⟨memo, _, rfl⟩ (ih _)
  have hok := forall₂_of_mapM h.1
  have hboth := hresults units memo
  generalize ((units.mapM ExceptT.run).run memo).1 = results at hok hboth
  clear h
  induction hboth generalizing ys with
  | nil =>
    cases hok
    exact .nil
  | cons hunit _ ih =>
    cases hok with
    | cons hr hrest =>
      obtain ⟨m, m', hm⟩ := hunit
      exact .cons ⟨m, m', hm.trans (congrArg (·, m') hr)⟩ (ih hrest)

end Evaluating

namespace Evaluating

variable {α β γ : Type}

/-- Started with any table of a kind, the computation has the result and leaves a table of the kind, also when it fails. -/
def Computes (I : Memo → Prop) (x : Evaluating α) (r : Except Fault α) : Prop :=
  ∀ memo, I memo → (x.run.run memo).1 = r ∧ I (x.run.run memo).2

namespace Computes

variable {I : Memo → Prop} {x : Evaluating α} {r : Except Fault α}

theorem pure (a : α) : Computes I (Pure.pure a) (.ok a) := fun _ hmemo => ⟨rfl, hmemo⟩

theorem lift (r : Except Fault α) : Computes I (Evaluating.lift r) r := fun _ hmemo => ⟨rfl, hmemo⟩

theorem bind {f : α → Evaluating β} {g : α → Except Fault β} (hx : Computes I x r)
    (hf : ∀ a, r = .ok a → Computes I (f a) (g a)) : Computes I (x >>= f) (r >>= g) := by
  intro memo hmemo
  obtain ⟨hresult, hkept⟩ := hx memo hmemo
  rw [run_bind, hresult]
  cases r with
  | error fault => exact ⟨rfl, hkept⟩
  | ok a => exact hf a rfl _ hkept

/-- Computations that belong in pairs to results compute the results of all. -/
theorem mapM {f : α → Evaluating γ} {g : β → Except Fault γ} {as : List α} {bs : List β}
    (h : List.Forall₂ (fun a b => Computes I (f a) (g b)) as bs) : Computes I (as.mapM f) (bs.mapM g) := by
  induction h with
  | nil => exact pure []
  | cons ha _ ih =>
    rw [List.mapM_cons, List.mapM_cons]
    refine ha.bind fun c _ => ?_
    exact ih.bind fun cs _ => pure (c :: cs)

/-- Computations that are all run have the results that they have one by one, the first failure included. -/
theorem runAll {f : α → Evaluating β} {g : α → Except Fault β} {as : List α} (h : ∀ a ∈ as, Computes I (f a) (g a)) :
    Computes I (Evaluating.runAll (as.map f)) (as.mapM g) := by
  have hall : ∀ memo, I memo → (((as.map f).mapM ExceptT.run).run memo).1 = as.map g ∧
      I (((as.map f).mapM ExceptT.run).run memo).2 := by
    induction as with
    | nil => exact fun memo hmemo => ⟨rfl, hmemo⟩
    | cons a as ih =>
      intro memo hmemo
      obtain ⟨hresult, hkept⟩ := h a (by simp) memo hmemo
      obtain ⟨hresults, hlast⟩ := ih (fun a' ha' => h a' (by simp [ha'])) _ hkept
      rw [List.map_cons, run_results_cons, hresult, hresults]
      exact ⟨rfl, hlast⟩
  have hid : ∀ as : List α, (as.map g).mapM id = as.mapM g := by
    intro as
    induction as with
    | nil => rfl
    | cons a as ih =>
      rw [List.map_cons, List.mapM_cons, List.mapM_cons, ih]
      rfl
  intro memo hmemo
  obtain ⟨hresults, hkept⟩ := hall memo hmemo
  rw [run_runAll, hresults, hid]
  exact ⟨rfl, hkept⟩

end Computes

end Evaluating

end TokenForest
