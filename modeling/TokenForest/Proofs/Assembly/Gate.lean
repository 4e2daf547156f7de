import TokenForest.Assembly.Origins
import TokenForest.Proofs.Assembly.Path

/-!
# The gate

What happens to one node at the gate, and to one symbol that is to become a terminal. Notes are only ever added to, so what has
been noted about a symbol stays noted to the end.
-/

namespace TokenForest

/-- The second notes continue the first ones. -/
structure Notes.Grows (n n' : Notes) : Prop where
  mismatches : n.mismatches <+: n'.mismatches
  coerced : n.coerced <+: n'.coerced

namespace Notes.Grows

theorem refl (n : Notes) : n.Grows n := ⟨List.prefix_refl _, List.prefix_refl _⟩

theorem trans {n n' n'' : Notes} (h : n.Grows n') (h' : n'.Grows n'') : n.Grows n'' :=
  ⟨h.mismatches.trans h'.mismatches, h.coerced.trans h'.coerced⟩

/-- Where nothing is left out in two steps, nothing is left out in either. -/
theorem kept {n n' n'' : Notes} (h : n.Grows n') (h' : n'.Grows n'') (hkept : n''.mismatches = n.mismatches) :
    n'.mismatches = n.mismatches ∧ n''.mismatches = n'.mismatches := by
  have hback : n'.mismatches <+: n.mismatches := hkept ▸ h'.mismatches
  have hfirst : n'.mismatches = n.mismatches := hback.eq_of_length_le h.mismatches.length_le
  exact ⟨hfirst, hkept.trans hfirst.symm⟩

end Notes.Grows

namespace Assembly

variable {α β : Type} {grammar : Grammar} {n n' : Notes}

/-! ## Computations that take notes -/

/-- A computation followed by another one runs through a state between them. -/
theorem run_bind {x : Noting α} {f : α → Noting β} {b : β} (h : (x >>= f).run n = (b, n')) :
    ∃ a n₁, x.run n = (a, n₁) ∧ (f a).run n₁ = (b, n') :=
  ⟨_, _, rfl, h⟩

/-- By itself an assembly goes on with a node that it makes. -/
theorem run_make {info : NodeInfo} {f : NodeInfo → Noting β} {b : β} (h : (Building.make info >>= f).run n = (b, n')) :
    (f info).run n = (b, n') :=
  h

/-- Computations one behind the other: the first one runs, and then the others. -/
theorem run_mapM_cons {f : α → Noting β} {a : α} {as : List α} {bs : List β} (h : ((a :: as).mapM f).run n = (bs, n')) :
    ∃ b others n₁, bs = b :: others ∧ (f a).run n = (b, n₁) ∧ (as.mapM f).run n₁ = (others, n') := by
  rw [List.mapM_cons] at h
  obtain ⟨b, n₁, hfirst, h⟩ := run_bind h
  obtain ⟨others, n₂, hothers, h⟩ := run_bind h
  cases h
  exact ⟨b, others, n₁, rfl, hfirst, hothers⟩

theorem run_pure {a b : α} (h : (pure a : Noting α).run n = (b, n')) : b = a ∧ n' = n := by
  cases h
  exact ⟨rfl, rfl⟩

/-- A forest is what assembling its lanes one behind the other comes to. -/
theorem exists_run_ofDecisions (decisions : List Decision) (grid : Grid) (grammar : Grammar) : ∃ trees,
    (grid.lanes.mapM (fun lane => laneRoots grammar lane (admittedRows grid decisions lane))).run .empty =
      (trees, (ofDecisions decisions grid grammar).notes) ∧ (ofDecisions decisions grid grammar).roots = trees.flatten :=
  ⟨_, rfl, rfl⟩

/-! ## A node at the gate -/

/-- What the gate does to a node below a parent: the node is admitted as it is, with the first fallback of its intent that is
permitted, or left out with a note when there is none. -/
inductive Entered (grammar : Grammar) (parent : Option NodeInfo) (child : NodeInfo) (n : Notes) :
    Option NodeInfo → Notes → Prop where
  | admitted (h : grammar.permits (parent.map (·.intent)) child.intent = true) : Entered grammar parent child n (some child) n
  | coerced {intent : Intent} (hnot : grammar.permits (parent.map (·.intent)) child.intent = false)
      (hfirst : (grammar.fallbacks child.intent).find? (grammar.permits (parent.map (·.intent))) = some intent) :
      Entered grammar parent child n (some { child with intent }) (n.coerce child.id)
  | leftOut (hnot : grammar.permits (parent.map (·.intent)) child.intent = false)
      (hnone : (grammar.fallbacks child.intent).find? (grammar.permits (parent.map (·.intent))) = none) :
      Entered grammar parent child n none
        (n.leaveOut ⟨child.id, child.position, child.intent, (parent.map (·.id)).getD "", parent.map (·.intent)⟩)

theorem entered_of_run {parent : Option NodeInfo} {child : NodeInfo} {r : Option NodeInfo}
    (h : (enter grammar parent child).run n = (r, n')) : Entered grammar parent child n r n' := by
  by_cases hp : grammar.permits (parent.map (·.intent)) child.intent = true
  · have hv : Intents.validate grammar (parent.map (·.intent)) child.intent = ⟨child.intent, some child.intent, false⟩ := by
      rw [Intents.validate, if_pos hp]
    rw [enter, hv] at h
    cases h
    exact .admitted hp
  · cases hf : (grammar.fallbacks child.intent).find? (grammar.permits (parent.map (·.intent))) with
    | none =>
      have hv : Intents.validate grammar (parent.map (·.intent)) child.intent = ⟨child.intent, none, false⟩ := by
        rw [Intents.validate, if_neg hp, hf]
      rw [enter, hv] at h
      cases h
      exact .leftOut (by simpa using hp) hf
    | some intent =>
      have hv : Intents.validate grammar (parent.map (·.intent)) child.intent = ⟨child.intent, some intent, true⟩ := by
        rw [Intents.validate, if_neg hp, hf]
      rw [enter, hv] at h
      cases h
      exact .coerced (by simpa using hp) hf

namespace Entered

variable {parent : Option NodeInfo} {child : NodeInfo}

theorem grows {r : Option NodeInfo} (h : Entered grammar parent child n r n') : n.Grows n' := by
  cases h with
  | admitted => exact Notes.Grows.refl n
  | coerced => exact ⟨List.prefix_refl _, List.prefix_append _ _⟩
  | leftOut => exact ⟨List.prefix_append _ _, List.prefix_refl _⟩

/-- An admitted node has an intent that the parent permits, and is what it was otherwise. -/
theorem permits {info : NodeInfo} (h : Entered grammar parent child n (some info) n') :
    grammar.permits (parent.map (·.intent)) info.intent = true ∧ info = { child with intent := info.intent } := by
  cases h with
  | admitted h => exact ⟨h, rfl⟩
  | coerced _ hfirst => exact ⟨List.find?_some hfirst, rfl⟩

/-- An admitted node has its own intent, or its change was noted and the intent is a fallback of its own. -/
theorem intent_eq {info : NodeInfo} (h : Entered grammar parent child n (some info) n') :
    info = child ∨ child.id ∈ n'.coerced ∧ info.intent ∈ grammar.fallbacks child.intent := by
  cases h with
  | admitted => exact Or.inl rfl
  | coerced _ hfirst => exact Or.inr ⟨by simp [Notes.coerce], List.mem_of_find?_eq_some hfirst⟩

/-- A node that is left out is noted by name. -/
theorem noted (h : Entered grammar parent child n none n') : ∃ m ∈ n'.mismatches, m.nodeId = child.id := by
  cases h with
  | leftOut => exact ⟨_, List.mem_append_right _ (List.mem_singleton_self _), rfl⟩

end Entered

/-! ## Symbols that become terminals -/

/-- A node for the symbol at the position was left out. -/
def Lost (n : Notes) (p : Position) : Prop := ∃ m ∈ n.mismatches, m.nodeId ∈ namesAt p

theorem Lost.mono {p : Position} (h : Lost n p) (hn : n.Grows n') : Lost n' p := by
  obtain ⟨m, hm, hid⟩ := h
  exact ⟨m, hn.mismatches.subset hm, hid⟩

theorem lost_of_entered {parent : Option NodeInfo} {child : NodeInfo} {p : Position}
    (h : Entered grammar parent child n none n') (hid : child.id ∈ namesAt p) : Lost n' p := by
  obtain ⟨m, hm, hmid⟩ := h.noted
  exact ⟨m, hm, hmid ▸ hid⟩

/-- What some symbols became, in order: a symbol is a terminal with an intent of its own, or a node for it was left out. -/
inductive Placed (n : Notes) : List Admitted → List NodeInfo → Prop where
  | nil : Placed n [] []
  | kept {item : Admitted} {items : List Admitted} {infos : List NodeInfo} (intent : Intent) (h : Placed n items infos) :
      Placed n (item :: items) ({ terminalInfo item with intent } :: infos)
  | lost {item : Admitted} {items : List Admitted} {infos : List NodeInfo} (hlost : Lost n item.position)
      (h : Placed n items infos) : Placed n (item :: items) infos

namespace Placed

variable {items items' : List Admitted} {infos infos' : List NodeInfo}

theorem mono (h : Placed n items infos) (hn : n.Grows n') : Placed n' items infos := by
  induction h with
  | nil => exact .nil
  | kept intent _ ih => exact .kept intent ih
  | lost hlost _ ih => exact .lost (hlost.mono hn) ih

theorem append (h : Placed n items infos) (h' : Placed n items' infos') : Placed n (items ++ items') (infos ++ infos') := by
  induction h with
  | nil => exact h'
  | kept intent _ ih => exact .kept intent ih
  | lost hlost _ ih => exact .lost hlost ih

/-- Symbols that are all lost became nothing. -/
theorem all_lost (h : ∀ item ∈ items, Lost n item.position) : Placed n items [] := by
  induction items with
  | nil => exact .nil
  | cons item items ih => exact .lost (h item (by simp)) (ih fun x hx => h x (by simp [hx]))

end Placed

/-- A symbol below a parent goes through the gate, and is a leaf when it is admitted. -/
theorem leaf_of_run {parent : NodeInfo} {item : Admitted} {ts : List SyntaxTree}
    (h : (terminalUnder grammar parent item).run n = (ts, n')) : ∃ r, Entered grammar (some parent) (terminalInfo item) n r n' ∧
      ts = (r.map (fun info => SyntaxTree.node info [])).toList := by
  replace h := run_make h
  obtain ⟨r, n₁, hrun, h⟩ := run_bind h
  obtain ⟨rfl, rfl⟩ := run_pure h
  exact ⟨r, entered_of_run hrun, rfl⟩

/-- The terminal of a symbol below a parent: it is admitted, or left out. -/
theorem terminalUnder_of_run {parent : NodeInfo} {item : Admitted} {ts : List SyntaxTree}
    (h : (terminalUnder grammar parent item).run n = (ts, n')) :
    n.Grows n' ∧ (∀ t ∈ ts, Permitted grammar parent t.info ∧ t.Linked (Permitted grammar)) ∧
      Placed n' [item] (SyntaxTree.terminals ts) := by
  obtain ⟨r, he, rfl⟩ := leaf_of_run h
  refine ⟨he.grows, ?_⟩
  cases r with
  | none =>
    refine ⟨by simp, ?_⟩
    exact .lost (lost_of_entered he (by simp [terminalInfo, namesAt])) .nil
  | some info =>
    obtain ⟨hp, hinfo⟩ := he.permits
    have hkind : info.kind = .terminal := by rw [hinfo]; rfl
    refine ⟨fun t ht => ?_, ?_⟩
    · simp only [Option.map_some, Option.toList_some, List.mem_singleton] at ht
      subst ht
      exact ⟨hp, SyntaxTree.linked_node.2 (by simp)⟩
    · rw [Option.map_some, Option.toList_some, SyntaxTree.terminals_leaf hkind, hinfo]
      exact .kept _ .nil

end Assembly

end TokenForest
