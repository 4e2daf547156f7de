import TokenForest.Proofs.MemoTable
import TokenForest.Proofs.Outcomes

/-!
# Runs of computations

`x.Runs memo a memo'` says what one run of a computation answers and which table it leaves; `Steps` is a run of many computations,
each with the table that the one before leaves. `x.Answers E Q` says that a run comes to an answer unless it fails with one of the
faults `E`, that the table only grows, and that the answer has a property ever after: under the table that is left, and under every
table that has what this one has.
-/

namespace TokenForest

namespace Evaluating

variable {α β γ : Type} {memo memo' memo'' : Memo}

/-! ## One run -/

namespace Runs

variable {x : Evaluating α} {f : α → Evaluating β} {a a' : α} {b : β}

theorem answer (h : x.Runs memo a memo') : (x.run.run memo).1 = .ok a := congrArg Prod.fst h

theorem produces (h : x.Runs memo a memo') : x.Produces a := ⟨memo, memo', h⟩

/-- A computation has one run from a table. -/
theorem unique (h : x.Runs memo a memo') (h' : x.Runs memo a' memo'') : a = a' ∧ memo' = memo'' := by
  have heq := h.symm.trans h'
  rw [Prod.mk.injEq] at heq
  exact ⟨Except.ok.inj heq.1, heq.2⟩

theorem pure (memo : Memo) (a : α) : (Pure.pure a : Evaluating α).Runs memo a memo := rfl

theorem lift {r : Except Fault α} (h : r = .ok a) (memo : Memo) : (Evaluating.lift r).Runs memo a memo := by
  rw [h]
  rfl

theorem bind (hx : x.Runs memo a memo') (hf : (f a).Runs memo' b memo'') : (x >>= f).Runs memo b memo'' := by
  unfold Runs at hx hf ⊢
  rw [run_bind, hx]
  exact hf

/-- What answers after a first computation runs from the table that the first one leaves. -/
theorem of_bind (h : (x >>= f).Runs memo b memo'') : ∃ a memo', x.Runs memo a memo' ∧ (f a).Runs memo' b memo'' := by
  unfold Runs at h ⊢
  rw [run_bind] at h
  cases hx : (x.run.run memo).1 with
  | error e =>
    rw [hx] at h
    cases h
  | ok a =>
    rw [hx] at h
    exact ⟨a, _, Prod.ext hx rfl, h⟩

theorem of_lift {r : Except Fault α} (h : (Evaluating.lift r).Runs memo a memo') : r = .ok a ∧ memo' = memo :=
  ⟨h.answer, (congrArg Prod.snd h).symm⟩

theorem of_pure (h : (Pure.pure a : Evaluating α).Runs memo a' memo') : a' = a ∧ memo' = memo :=
  h.unique (pure memo a)

end Runs

theorem runs_of_answer {x : Evaluating α} {a : α} (h : (x.run.run memo).1 = .ok a) : x.Runs memo a (x.run.run memo).2 :=
  Prod.ext h rfl

/-- Started with the table, the computation fails. -/
def Fails (x : Evaluating α) (memo : Memo) (fault : Fault) : Prop := (x.run.run memo).1 = .error fault

namespace Fails

variable {x : Evaluating α} {f : α → Evaluating β} {a : α} {fault : Fault}

theorem not_runs (h : x.Fails memo fault) : ¬x.Runs memo a memo' := by
  intro hrun
  cases h.symm.trans hrun.answer

theorem bind_first (h : x.Fails memo fault) : (x >>= f).Fails memo fault := by
  unfold Fails at h ⊢
  rw [run_bind, h]
  rfl

theorem bind_second (hx : x.Runs memo a memo') (h : (f a).Fails memo' fault) : (x >>= f).Fails memo fault := by
  unfold Runs at hx
  unfold Fails at h ⊢
  rw [run_bind, hx]
  exact h

end Fails

/-! ## Runs one after the other -/

/-- The computations of a list of things run one after the other, from the first table to the second one. -/
inductive Steps (f : α → Evaluating β) : List α → Memo → List β → Memo → Prop where
  | nil (memo : Memo) : Steps f [] memo [] memo
  | cons {a : α} {as : List α} {b : β} {bs : List β} {memo memo' memo'' : Memo} :
      (f a).Runs memo b memo' → Steps f as memo' bs memo'' → Steps f (a :: as) memo (b :: bs) memo''

namespace Steps

variable {f : α → Evaluating β} {as : List α} {bs bs' : List β}

/-- A run over a list runs over the front of the list first. -/
theorem split (h : Steps f as memo bs memo'') (k : Nat) :
    ∃ memo', Steps f (as.take k) memo (bs.take k) memo' ∧ Steps f (as.drop k) memo' (bs.drop k) memo'' := by
  induction h generalizing k with
  | nil memo =>
    rw [List.take_nil, List.drop_nil, List.take_nil, List.drop_nil]
    exact ⟨memo, .nil memo, .nil memo⟩
  | @cons a as b bs memo memo₁ memo'' hrun hrest ih =>
    cases k with
    | zero => exact ⟨memo, .nil memo, .cons hrun hrest⟩
    | succ k =>
      obtain ⟨memo', hfront, hback⟩ := ih k
      exact ⟨memo', .cons hrun hfront, hback⟩

/-- A list of computations has one run from a table. -/
theorem unique (h : Steps f as memo bs memo') (h' : Steps f as memo bs' memo'') : bs = bs' ∧ memo' = memo'' := by
  induction h generalizing bs' with
  | nil =>
    cases h'
    exact ⟨rfl, rfl⟩
  | cons hrun _ ih =>
    cases h' with
    | cons hrun' hrest' =>
      obtain ⟨rfl, rfl⟩ := hrun.unique hrun'
      obtain ⟨rfl, rfl⟩ := ih hrest'
      exact ⟨rfl, rfl⟩

theorem eq_of_nil (h : Steps f [] memo bs memo') : bs = [] ∧ memo' = memo := h.unique (.nil memo)

theorem map_iff {g : γ → α} {cs : List γ} :
    Steps f (cs.map g) memo bs memo' ↔ Steps (fun c => f (g c)) cs memo bs memo' := by
  constructor
  · intro h
    induction cs generalizing memo bs with
    | nil =>
      obtain ⟨rfl, rfl⟩ := h.eq_of_nil
      exact .nil _
    | cons c cs ih =>
      cases h with
      | cons hrun hrest => exact .cons hrun (ih hrest)
  · intro h
    induction h with
    | nil memo => exact .nil memo
    | cons hrun _ ih => exact .cons hrun ih

theorem produces (h : Steps f as memo bs memo') : List.Forall₂ (fun a b => (f a).Produces b) as bs := by
  induction h with
  | nil => exact .nil
  | cons hrun _ ih => exact .cons hrun.produces ih

theorem mapM (h : Steps f as memo bs memo') : (as.mapM f).Runs memo bs memo' := by
  induction h with
  | nil memo =>
    rw [List.mapM_nil]
    exact Runs.pure memo []
  | cons hrun _ ih =>
    rw [List.mapM_cons]
    exact hrun.bind (ih.bind (Runs.pure _ _))

theorem runAll (h : Steps f as memo bs memo') : (Evaluating.runAll (as.map f)).Runs memo bs memo' := by
  have hall : ((as.map f).mapM ExceptT.run).run memo = (bs.map .ok, memo') := by
    induction h with
    | nil => rfl
    | cons hrun _ ih =>
      unfold Runs at hrun
      rw [List.map_cons, run_results_cons, hrun, ih]
      rfl
  have hok : (bs.map (Except.ok (ε := Fault))).mapM id = .ok bs := by
    clear h hall
    induction bs with
    | nil => rfl
    | cons b bs ih =>
      rw [List.map_cons, List.mapM_cons, ih]
      rfl
  unfold Runs
  rw [run_runAll, hall, hok]

end Steps

/-! ## Computations that answer -/

/-- Started with any table, the computation comes to an answer, unless it fails with a fault of a kind. It keeps what is stored, and
the answer has the property under every table that has what is stored then. -/
def Answers (x : Evaluating α) (E : Fault → Prop) (Q : Memo → α → Prop) : Prop :=
  ∀ memo, (∃ a memo', x.Runs memo a memo' ∧ memo.Extends memo' ∧ ∀ later, memo'.Extends later → Q later a) ∨
    ∃ fault, x.Fails memo fault ∧ E fault

theorem Answers.of_runs {x : Evaluating α} {E : Fault → Prop} {Q : Memo → α → Prop} {a : α} (h : x.Answers E Q)
    (hrun : x.Runs memo a memo') : memo.Extends memo' ∧ ∀ later, memo'.Extends later → Q later a := by
  rcases h memo with ⟨a', middle, hrun', hanswer⟩ | ⟨fault, hfails, _⟩
  · obtain ⟨rfl, rfl⟩ := hrun.unique hrun'
    exact hanswer
  · exact absurd hrun hfails.not_runs

/-- A run of computations that answer only adds to the table, and its answers have their properties ever after. -/
theorem Steps.answers {f : α → Evaluating β} {E : Fault → Prop} {Q : α → Memo → β → Prop} {as : List α} {bs : List β}
    (h : Steps f as memo bs memo') (hf : ∀ a ∈ as, (f a).Answers E (Q a)) :
    memo.Extends memo' ∧ ∀ later, memo'.Extends later → List.Forall₂ (fun a b => Q a later b) as bs := by
  induction h with
  | nil memo => exact ⟨MemoTable.Extends.refl memo, fun _ _ => .nil⟩
  | @cons a as b bs memo middle memo' hrun _ ih =>
    obtain ⟨hextends, hQ⟩ := (hf a (by simp)).of_runs hrun
    obtain ⟨hrest, hQs⟩ := ih fun a' ha' => hf a' (by simp [ha'])
    refine ⟨hextends.trans hrest, ?_⟩
    intro later hlater
    exact .cons (hQ later (hrest.trans hlater)) (hQs later hlater)

namespace Answers

variable {E E' : Fault → Prop} {P : Memo → α → Prop} {Q : Memo → α → Prop} {R : Memo → β → Prop} {x : Evaluating α}

theorem mono (h : x.Answers E P) (hPQ : ∀ memo a, P memo a → Q memo a) : x.Answers E Q := by
  intro memo
  rcases h memo with ⟨a, memo', hrun, hextends, hP⟩ | hfails
  · exact Or.inl ⟨a, memo', hrun, hextends, fun later hlater => hPQ later a (hP later hlater)⟩
  · exact Or.inr hfails

theorem pure {a : α} (h : ∀ memo, Q memo a) : (Pure.pure a : Evaluating α).Answers E Q := by
  intro memo
  exact Or.inl ⟨a, memo, Runs.pure memo a, MemoTable.Extends.refl memo, fun later _ => h later⟩

/-- What the first computation answers is known when the second one has answered. -/
theorem bind {f : α → Evaluating β} (hx : x.Answers E P) (hf : ∀ a, (f a).Answers E (fun memo b => P memo a → R memo b)) :
    (x >>= f).Answers E R := by
  intro memo
  rcases hx memo with ⟨a, middle, hrun, hextends, hP⟩ | ⟨fault, hfails, hE⟩
  · rcases hf a middle with ⟨b, memo', hrun', hextends', hR⟩ | ⟨fault, hfails, hE⟩
    · refine Or.inl ⟨b, memo', hrun.bind hrun', hextends.trans hextends', ?_⟩
      intro later hlater
      exact hR later hlater (hP later (hextends'.trans hlater))
    · exact Or.inr ⟨fault, hfails.bind_second hrun, hE⟩
  · exact Or.inr ⟨fault, hfails.bind_first, hE⟩

theorem lift_bind {r : Except Fault α} {a : α} {f : α → Evaluating β} (hr : r = .ok a) (hf : (f a).Answers E R) :
    (Evaluating.lift r >>= f).Answers E R := by
  intro memo
  have hlift := Runs.lift hr memo
  rcases hf memo with ⟨b, memo', hrun, hanswer⟩ | ⟨fault, hfails, hE⟩
  · exact Or.inl ⟨b, memo', hlift.bind hrun, hanswer⟩
  · exact Or.inr ⟨fault, hfails.bind_second hlift, hE⟩

theorem lift_error {r : Except Fault α} {fault : Fault} {f : α → Evaluating β} (hr : r = .error fault) (hE : E fault) :
    (Evaluating.lift r >>= f).Answers E R := by
  intro memo
  have hfails : (Evaluating.lift r).Fails memo fault := hr
  exact Or.inr ⟨fault, hfails.bind_first, hE⟩

/-- A list of computations runs to its end, or stops with the fault of one of them. -/
theorem steps_or_fails {f : α → Evaluating β} {Q : α → Memo → β → Prop} {as : List α}
    (h : ∀ a ∈ as, (f a).Answers E (Q a)) (memo : Memo) : (∃ bs memo', Steps f as memo bs memo') ∨
      ∃ fault, E fault ∧ (as.mapM f).Fails memo fault ∧ (Evaluating.runAll (as.map f)).Fails memo fault := by
  induction as generalizing memo with
  | nil => exact Or.inl ⟨[], memo, .nil memo⟩
  | cons a as ih =>
    rw [List.mapM_cons, List.map_cons]
    rcases h a (by simp) memo with ⟨b, middle, hrun, _⟩ | ⟨fault, hfails, hE⟩
    · rcases ih (fun a' ha' => h a' (by simp [ha'])) middle with ⟨bs, memo', hrest⟩ | ⟨fault, hE, hmapM, hrunAll⟩
      · exact Or.inl ⟨b :: bs, memo', .cons hrun hrest⟩
      · refine Or.inr ⟨fault, hE, hmapM.bind_first.bind_second hrun, ?_⟩
        unfold Runs at hrun
        unfold Fails at hrunAll ⊢
        rw [run_runAll] at hrunAll
        rw [run_runAll, run_results_cons, hrun, List.mapM_cons]
        simp only at hrunAll
        rw [hrunAll]
        rfl
    · refine Or.inr ⟨fault, hE, hfails.bind_first, ?_⟩
      unfold Fails at hfails ⊢
      rw [run_runAll, run_results_cons, List.mapM_cons, hfails]
      rfl

theorem mapM {f : α → Evaluating β} {Q : α → Memo → β → Prop} {as : List α} (h : ∀ a ∈ as, (f a).Answers E (Q a)) :
    (as.mapM f).Answers E (fun memo bs => List.Forall₂ (fun a b => Q a memo b) as bs) := by
  intro memo
  rcases steps_or_fails h memo with ⟨bs, memo', hsteps⟩ | ⟨fault, hE, hfails, _⟩
  · obtain ⟨hextends, hQ⟩ := hsteps.answers h
    exact Or.inl ⟨bs, memo', hsteps.mapM, hextends, hQ⟩
  · exact Or.inr ⟨fault, hfails, hE⟩

/-- Computations that cannot fail run to the end. -/
theorem exists_steps {f : α → Evaluating β} {Q : α → Memo → β → Prop} {as : List α}
    (h : ∀ a ∈ as, (f a).Answers (fun _ => False) (Q a)) (memo : Memo) : ∃ bs memo', Steps f as memo bs memo' := by
  rcases steps_or_fails h memo with hsteps | ⟨fault, hfalse, _⟩
  · exact hsteps
  · exact hfalse.elim

end Answers

end Evaluating

end TokenForest
