import TokenForest.Proofs.Assembly.Matching
import TokenForest.Proofs.Batch.Accounts
import TokenForest.Proofs.Forest.Idempotence
import TokenForest.Proofs.Survey.Grounds

/-!
# The confidences of a delivered forest

A construct has the least confidence of its children, rounded to six places, and one that owns nothing is pruned. So the confidence
of every node of an assembled forest is that of one of its terminals, rounded again and again, and merging changes nothing about
it. As the confidence of a terminal is settled and reaches the general threshold, so does every confidence that is delivered.
-/

namespace TokenForest

/-! ## Trees -/

namespace SyntaxTree

variable {P : Binary64 → Prop}

/-- What holds of the confidences of the terminals of a tree, and of every rounding of a number it holds of, holds of all
confidences that pruning leaves. -/
theorem forall_confidence_prune? (hround : ∀ x, P x → P x.roundSix) {t kept : SyntaxTree} (hown : t.OwnedByConstructs)
    (hterminals : ∀ info ∈ terminals [t], P info.confidence) (h : t.prune? = some kept) :
    ∀ info ∈ kept.infos, P info.confidence := by
  induction t generalizing kept with
  | node info children ih =>
    rw [prune?_node] at h
    split at h
    · rename_i hk
      cases h
      obtain rfl := hown.children_eq_nil hk
      rw [terminals_leaf hk] at hterminals
      intro i hi
      rw [infos_node] at hi
      exact hterminals i hi
    · rename_i hk
      simp only at h
      split at h
      · cases h
      · rename_i hne
        cases h
        -- everything below the root is known by induction, and the root takes one of the confidences below it
        have hbelow : ∀ k ∈ children.filterMap prune?, ∀ i ∈ k.infos, P i.confidence := by
          intro k hkept
          obtain ⟨u, hu, huk⟩ := List.mem_filterMap.1 hkept
          apply ih u hu _ _ huk
          · exact (linked_node.1 hown u hu).2
          · intro i hi
            apply hterminals i
            rw [mem_terminals] at hi
            rw [terminals_inner hk, mem_terminals]
            exact ⟨⟨u, hu, by simpa using hi.1⟩, hi.2⟩
        intro i hi
        rw [infos_node] at hi
        rcases List.mem_cons.1 hi with rfl | hi
        · obtain ⟨x, hx, hagg⟩ := exists_aggregate info.confidence (mt List.map_eq_nil_iff.1 hne)
          obtain ⟨k, hkept, rfl⟩ := List.mem_map.1 hx
          change P (aggregate info.confidence _)
          rw [hagg]
          apply hround
          apply hbelow k hkept
          cases k with
          | node i ts => simp [infos_node, SyntaxTree.info]
        · obtain ⟨k, hkept, hi⟩ := List.mem_flatMap.1 hi
          exact hbelow k hkept i hi

end SyntaxTree

/-! ## Forests -/

namespace Forest

variable {f : Forest}

/-- What holds of the trees of the roots, and of every child of a tree that it holds of, holds of the tree of every node that can be
reached. -/
theorem WellFormed.forall_tree (hf : f.WellFormed) {Q : SyntaxTree → Prop}
    (hchild : ∀ info ts, Q (.node info ts) → ∀ t ∈ ts, Q t) (hroots : ∀ t ∈ f.trees, Q t) {i : Nat} (hi : f.Reachable i) :
    Q (f.tree i) := by
  induction hi with
  | root hr => exact hroots _ (List.mem_map_of_mem hr)
  | child _ hc ih =>
    rw [hf.tree_eq] at ih
    exact hchild _ _ ih _ (List.mem_map_of_mem hc)

/-- What holds of everything that the nodes of the trees say holds of what a node that can be reached says. -/
theorem WellFormed.forall_info (hf : f.WellFormed) {P : NodeInfo → Prop} (hinfo : ∀ t ∈ f.trees, ∀ info ∈ t.infos, P info) {i : Nat}
    (hi : f.Reachable i) : P (f.node i).info := by
  have htree : ∀ info ∈ (f.tree i).infos, P info := by
    refine hf.forall_tree (Q := fun t => ∀ info ∈ t.infos, P info) ?_ hinfo hi
    intro info ts hinfos t ht j hj
    apply hinfos
    rw [SyntaxTree.infos_node]
    exact List.mem_cons_of_mem _ (List.mem_flatMap.2 ⟨t, ht, hj⟩)
  apply htree
  rw [hf.tree_eq, SyntaxTree.infos_node]
  exact List.mem_cons_self

/-- Where only constructs have children and terminals wrap symbols, every node is one that can be made by hand; and what holds of
everything that the nodes of the trees say holds of what a node that can be reached says. -/
theorem WellFormed.checked_of_trees (hf : f.WellFormed) {P : NodeInfo → Prop}
    (hown : ∀ t ∈ f.trees, t.OwnedByConstructs) (hsymbol : ∀ t ∈ f.trees, ∀ info ∈ t.infos, info.kind = .terminal →
      info.symbol.isSome = true) (hinfo : ∀ t ∈ f.trees, ∀ info ∈ t.infos, P info) :
    f.Checked ∧ ∀ i ∈ f.walk, P (f.node i).info := by
  refine ⟨fun i hi => ?_, fun i hi => hf.forall_info hinfo ((hf.mem_walk_iff i).1 hi)⟩
  have hreachable := (hf.mem_walk_iff i).1 hi
  have hlinked : (f.tree i).OwnedByConstructs := by
    refine hf.forall_tree ?_ hown hreachable
    intro info ts h t ht
    exact (SyntaxTree.linked_node.1 h t ht).2
  unfold checkNode
  split
  · rename_i hbad
    have hsome := hf.forall_info hsymbol hreachable hbad.1
    rw [Option.isNone_iff_eq_none] at hbad
    rw [hbad.2] at hsome
    cases hsome
  · split
    · rename_i hbad
      rw [hf.tree_eq] at hlinked
      have hnil := List.map_eq_nil_iff.1 (hlinked.children_eq_nil hbad.1)
      exact absurd hnil hbad.2
    · rfl

/-- What holds of the confidences of the leaves and of every rounding holds of every confidence of the merged forest. -/
theorem WellFormed.forall_confidence_quotient (hf : f.WellFormed) (hcheck : f.Checked) {P : Binary64 → Prop}
    (hround : ∀ x, P x → P x.roundSix) (hleaf : ∀ i ∈ f.walk, f.children i = [] → P (f.confidence i)) (t : Binary64) {i : Nat}
    (hi : i ∈ (f.quotient t).walk) : P ((f.quotient t).confidence i) := by
  obtain ⟨c, hc, _, hclass, hrep⟩ := hf.class_of_mem_walk_quotient hi
  rw [hf.confidence_quotient hclass hrep]
  exact hf.forall_class_confidence hcheck hround hleaf hc

end Forest

/-! ## Assembled forests -/

namespace Assembly

variable {grammar : Grammar} {decisions : List Decision} {grid : Grid}

/-- A symbol that is assembled has the final confidence of a decision that admits it. -/
theorem exists_decision_of_mem_admittedSymbols {item : Admitted} (h : item ∈ admittedSymbols decisions grid) :
    ∃ d ∈ decisions, d.status.isAdmitted = true ∧ item.psi = d.finalPsi := by
  obtain ⟨e, he, hitem⟩ := Option.map_eq_some_iff.1 (mem_admittedSymbols.1 h).2
  unfold admitted? at he
  obtain ⟨d, hd, hsymbol⟩ := Option.bind_eq_some_iff.1 he
  obtain ⟨s, _, rfl⟩ := Option.map_eq_some_iff.1 hsymbol
  have hadmitted := List.find?_some hd
  rw [Bool.and_eq_true] at hadmitted
  refine ⟨d, List.mem_reverse.1 (List.mem_of_find?_eq_some hd), hadmitted.2, ?_⟩
  rw [← hitem]

/-- A terminal wraps a symbol and has the confidence of a decision that admits it. -/
theorem terminal_ofDecisions {P : Binary64 → Prop} (h : ∀ d ∈ decisions, d.status.isAdmitted = true → P d.finalPsi)
    {r : SyntaxTree} (hr : r ∈ (ofDecisions decisions grid grammar).roots) {info : NodeInfo} (hinfo : info ∈ r.infos)
    (hk : info.kind = .terminal) : info.symbol.isSome = true ∧ P info.confidence := by
  obtain ⟨_, hplaced⟩ := ofDecisions_spec decisions grid grammar
  have hmem : info ∈ SyntaxTree.terminals (ofDecisions decisions grid grammar).roots :=
    SyntaxTree.mem_terminals.2 ⟨⟨r, hr, hinfo⟩, hk⟩
  obtain ⟨item, hitem, intent, rfl⟩ := hplaced.exists_item hmem
  obtain ⟨d, hd, hadmitted, hpsi⟩ := exists_decision_of_mem_admittedSymbols hitem
  refine ⟨rfl, ?_⟩
  change P item.psi
  rw [hpsi]
  exact h d hd hadmitted

/-- The confidences of an assembled forest, when those of the admitted symbols have a property that rounding keeps: every node has
it, every node could be made by hand, and only constructs have children. -/
theorem confidences_ofDecisions {P : Binary64 → Prop} (hround : ∀ x, P x → P x.roundSix)
    (h : ∀ d ∈ decisions, d.status.isAdmitted = true → P d.finalPsi) :
    (Forest.ofTrees (ofDecisions decisions grid grammar).roots).Checked ∧
      ∀ i ∈ (Forest.ofTrees (ofDecisions decisions grid grammar).roots).walk,
        P ((Forest.ofTrees (ofDecisions decisions grid grammar).roots).confidence i) := by
  obtain ⟨hf, htrees⟩ := Forest.adds_ofTrees (ofDecisions decisions grid grammar).roots
  apply hf.checked_of_trees (P := fun info => P info.confidence)
  · rw [htrees]
    intro r hr
    obtain ⟨t, hprune, hown⟩ := exists_ownedByConstructs hr
    have hignores : SyntaxTree.IgnoresConfidence (fun parent _ : NodeInfo => parent.kind = .nonterminal) := by
      intro p c x y hk
      exact hk
    exact hown.prune? hignores hprune
  · rw [htrees]
    intro r hr info hinfo hk
    exact (terminal_ofDecisions h hr hinfo hk).1
  · rw [htrees]
    intro r hr
    obtain ⟨t, hprune, hown⟩ := exists_ownedByConstructs hr
    apply SyntaxTree.forall_confidence_prune? hround hown _ hprune
    intro info hinfo
    -- pruning keeps the terminals of a tree
    have hkept := SyntaxTree.terminals_prune? t
    rw [hprune, Option.toList_some] at hkept
    rw [← hkept, SyntaxTree.mem_terminals] at hinfo
    exact (terminal_ofDecisions h hr (by simpa using hinfo.1) hinfo.2).2

end Assembly

/-! ## Batches -/

namespace Batch

variable {records : List TokenRecord} {config : Config} {grammar : Grammar} {scorer : Scorer} {deadline : Deadline}
  {merging : Bool} {batch : Batch}

/-- Merging when a tolerance is given leaves a forest as it is or merges it. -/
theorem forest_of_mapM_merge {built : Forest} {tolerance : Option Binary64} {merge : Option Forest.Merged}
    (h : tolerance.mapM built.merge = .ok merge) :
    (merge.map (·.forest)).getD built = built ∨ ∃ t, (merge.map (·.forest)).getD built = built.quotient t := by
  cases tolerance with
  | none =>
    cases h
    exact Or.inl rfl
  | some t =>
    obtain ⟨m, hm, h⟩ := ok_of_bind h
    cases h
    rw [built.merge_eq (Forest.isTolerance_of_merge hm)] at hm
    cases hm
    exact Or.inr ⟨t, rfl⟩

/-- The forest of a result is the assembled one, or the one that it is merged into. -/
theorem forest_of_ofAssembly {assembly : Assembly} {survey : Survey} {tolerance : Option Binary64}
    (h : ofAssembly assembly survey tolerance = .ok batch) :
    batch.forest = Forest.ofTrees assembly.roots ∨ ∃ t, batch.forest = (Forest.ofTrees assembly.roots).quotient t := by
  obtain ⟨merge, hmerge, h⟩ := ok_of_bind h
  cases h
  exact forest_of_mapM_merge hmerge

/-- Every confidence of a delivered forest, merged or not, lies between the general threshold and 1. -/
theorem run_confident (h : run records config grammar scorer deadline merging = .ok batch) :
    ∀ i, batch.forest.Reachable i → config.thetaMin ≤ batch.forest.confidence i ∧ batch.forest.confidence i ≤ 1 := by
  obtain ⟨grid, survey, _, hgrid, hsurvey, h⟩ := exists_survey_of_run h
  have hsure : ∀ d ∈ survey.decisions, Survey.SureIfAdmitted config d := Survey.run_sure (Grid.nodup_positions hgrid) hsurvey
  have hround : ∀ x, Sure config x → Sure config x.roundSix := fun _ hx => hx.roundSix
  obtain ⟨hf, _⟩ := Forest.adds_ofTrees (Assembly.ofDecisions survey.decisions grid grammar).roots
  obtain ⟨hcheck, hconfident⟩ : (Forest.ofTrees (Assembly.ofDecisions survey.decisions grid grammar).roots).Checked ∧
      ∀ i ∈ (Forest.ofTrees (Assembly.ofDecisions survey.decisions grid grammar).roots).walk,
        Sure config ((Forest.ofTrees (Assembly.ofDecisions survey.decisions grid grammar).roots).confidence i) :=
    Assembly.confidences_ofDecisions hround hsure
  have hforest := forest_of_ofAssembly h
  generalize Forest.ofTrees (Assembly.ofDecisions survey.decisions grid grammar).roots = built at hf hcheck hconfident hforest
  have hdelivered : ∀ i, batch.forest.Reachable i → Sure config (batch.forest.confidence i) := by
    intro i hi
    rcases hforest with hforest | ⟨t, hforest⟩
    · rw [hforest] at hi ⊢
      exact hconfident i ((hf.mem_walk_iff i).2 hi)
    · rw [hforest] at hi ⊢
      have hleaf : ∀ j ∈ built.walk, built.children j = [] → Sure config (built.confidence j) := fun j hj _ => hconfident j hj
      exact hf.forall_confidence_quotient (P := Sure config) hcheck hround hleaf t ((hf.quotient t).mem_walk_iff i |>.2 hi)
  intro i hi
  obtain ⟨⟨hunit, _⟩, htheta⟩ := hdelivered i hi
  exact ⟨htheta, ((Binary64.inUnit_iff _).1 hunit).2⟩

/-- So does the batch of two records of which one is no identifier, merged. -/
theorem run_confident_twoRecords : ∃ batch, run twoRecords .default .default .standard .never true = .ok batch ∧
    ∀ i, batch.forest.Reachable i → Config.default.thetaMin ≤ batch.forest.confidence i ∧ batch.forest.confidence i ≤ 1 := by
  obtain ⟨batch, h⟩ := exists_run_twoRecords true
  exact ⟨batch, h, run_confident h⟩

end Batch

end TokenForest
