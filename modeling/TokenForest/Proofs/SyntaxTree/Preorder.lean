import TokenForest.SyntaxTree

/-!
# Trees in pre-order

What the nodes of a tree say, from the root down and from left to right: one entry for each path from the root. A tree is
taken apart by `SyntaxTree.induction`, which gives the claim for all children of a node at once. The edges of a tree pair what a node
says with what each of its children says: pruning takes edges away and changes nothing but confidences at the ends of the others.
-/

namespace TokenForest

namespace SyntaxTree

/-- A claim holds of every tree when it holds of a node as soon as it holds of all its children. -/
@[elab_as_elim, induction_eliminator]
theorem induction {P : SyntaxTree → Prop}
    (node : ∀ (info : NodeInfo) (children : List SyntaxTree), (∀ t ∈ children, P t) → P (.node info children))
    (t : SyntaxTree) : P t :=
  @SyntaxTree.rec P (fun ts => ∀ t ∈ ts, P t) node (by simp)
    (fun _ _ h hs => by
      intro t ht
      rcases List.mem_cons.1 ht with rfl | ht
      · exact h
      · exact hs t ht) t

/-! ## Pre-order -/

theorem allInfos_eq (ts : List SyntaxTree) : allInfos ts = ts.flatMap infos := by
  induction ts with
  | nil => rfl
  | cons t ts ih => simp [allInfos, ih]

theorem infos_node (info : NodeInfo) (children : List SyntaxTree) :
    (node info children).infos = info :: children.flatMap infos := by
  rw [infos, allInfos_eq]

/-! ## Subtrees -/

theorem allSubtrees_eq (ts : List SyntaxTree) : allSubtrees ts = ts.flatMap subtrees := by
  induction ts with
  | nil => rfl
  | cons t ts ih => simp [allSubtrees, ih]

theorem subtrees_node (info : NodeInfo) (children : List SyntaxTree) :
    (node info children).subtrees = node info children :: children.flatMap subtrees := by
  rw [subtrees, allSubtrees_eq]

theorem self_mem_subtrees (t : SyntaxTree) : t ∈ t.subtrees := by
  cases t
  simp [subtrees_node]

/-- The nodes of a tree are the roots of its subtrees. -/
theorem map_info_subtrees (t : SyntaxTree) : t.subtrees.map info = t.infos := by
  induction t with
  | node i children ih =>
    have hchildren : (children.map fun t => t.subtrees.map info) = children.map infos := List.map_congr_left ih
    rw [subtrees_node, infos_node, List.map_cons, List.map_flatMap, List.flatMap_def, hchildren, ← List.flatMap_def]
    rfl

/-- What holds of a tree, and of every child of a tree that it holds of, holds of all subtrees. -/
theorem forall_subtrees {Q : SyntaxTree → Prop} (hchild : ∀ info children, Q (.node info children) → ∀ t ∈ children, Q t)
    {t : SyntaxTree} (h : Q t) : ∀ u ∈ t.subtrees, Q u := by
  induction t with
  | node info children ih =>
    intro u hu
    rw [subtrees_node] at hu
    rcases List.mem_cons.1 hu with rfl | hu
    · exact h
    · obtain ⟨t, ht, hu⟩ := List.mem_flatMap.1 hu
      exact ih t ht (hchild info children h t ht) u hu

/-- The subtrees of a subtree are subtrees of the tree. -/
theorem mem_subtrees_trans {t u v : SyntaxTree} (hu : u ∈ t.subtrees) (hv : v ∈ u.subtrees) : v ∈ t.subtrees := by
  refine forall_subtrees (Q := fun u => ∀ v ∈ u.subtrees, v ∈ t.subtrees) ?_ (fun v hv => hv) u hu v hv
  intro info children h c hc v hv
  apply h
  rw [subtrees_node]
  exact List.mem_cons_of_mem _ (List.mem_flatMap.2 ⟨c, hc, hv⟩)

/-! ## Terminals -/

theorem mem_terminals {ts : List SyntaxTree} {info : NodeInfo} :
    info ∈ terminals ts ↔ (∃ t ∈ ts, info ∈ t.infos) ∧ info.kind = .terminal := by
  rw [terminals, List.mem_filter, List.mem_flatMap, decide_eq_true_iff]

@[simp] theorem terminals_append (ts us : List SyntaxTree) : terminals (ts ++ us) = terminals ts ++ terminals us := by
  simp [terminals]

theorem terminals_cons (t : SyntaxTree) (ts : List SyntaxTree) : terminals (t :: ts) = terminals [t] ++ terminals ts := by
  rw [← terminals_append, List.singleton_append]

/-- An inner node has the terminals of its children. -/
theorem terminals_inner {info : NodeInfo} (h : info.kind ≠ .terminal) (children : List SyntaxTree) :
    terminals [node info children] = terminals children := by
  simp [terminals, infos_node, h]

/-- A terminal without children is its own terminal. -/
theorem terminals_leaf {info : NodeInfo} (h : info.kind = .terminal) : terminals [node info []] = [info] := by
  simp [terminals, infos_node, h]

/-- The terminals of a subtree are terminals of the tree. -/
theorem terminals_subtrees {t u : SyntaxTree} (h : u ∈ t.subtrees) : ∀ info ∈ terminals [u], info ∈ terminals [t] := by
  have hbelow : ∀ info ∈ u.infos, info ∈ t.infos := by
    intro info hinfo
    rw [← map_info_subtrees] at hinfo ⊢
    obtain ⟨v, hv, rfl⟩ := List.mem_map.1 hinfo
    exact List.mem_map_of_mem (mem_subtrees_trans h hv)
  intro info hinfo
  rw [mem_terminals] at hinfo ⊢
  exact ⟨⟨t, by simp, hbelow info (by simpa using hinfo.1)⟩, hinfo.2⟩

/-! ## Pruning -/

/-- Pruning some trees prunes each of them. -/
theorem pruneAll_eq (ts : List SyntaxTree) : pruneAll ts = ts.filterMap prune? := by
  induction ts with
  | nil => rfl
  | cons t ts ih =>
    rw [pruneAll, List.filterMap_cons]
    cases h : prune? t with
    | none => simp [ih]
    | some kept => simp [ih]

/-- What pruning leaves of a node: a terminal stays, an inner node goes when nothing is left below it. -/
theorem prune?_node (info : NodeInfo) (children : List SyntaxTree) :
    prune? (node info children) =
      if info.kind = .terminal then some (node info children)
      else
        let kept := children.filterMap prune?
        if kept = [] then none
        else some (node { info with confidence := aggregate info.confidence (kept.map (fun t => t.info.confidence)) } kept) := by
  rw [prune?, ← pruneAll_eq]
  split
  · rfl
  · split
    · rename_i h
      simp [h]
    · rename_i h
      exact (if_neg h).symm

theorem prune?_of_terminal {info : NodeInfo} (h : info.kind = .terminal) (children : List SyntaxTree) :
    prune? (node info children) = some (node info children) := by
  rw [prune?_node, if_pos h]

/-- A construct with something left below it stays, with an aggregated confidence. -/
theorem prune?_of_kept {info : NodeInfo} (h : info.kind = .nonterminal) {children kept : List SyntaxTree}
    (hkept : children.filterMap prune? = kept) (hne : kept ≠ []) : prune? (node info children) =
      some (node { info with confidence := aggregate info.confidence (kept.map (fun t => t.info.confidence)) } kept) := by
  rw [prune?_node, if_neg (by simp [h]), hkept]
  exact if_neg hne

/-- Trees whose terminals pruning keeps are pruned without a loss of terminals. -/
theorem terminals_filterMap_prune? {ts : List SyntaxTree} (h : ∀ t ∈ ts, terminals (prune? t).toList = terminals [t]) :
    terminals (ts.filterMap prune?) = terminals ts := by
  induction ts with
  | nil => rfl
  | cons t ts ih =>
    have hts := ih (fun u hu => h u (by simp [hu]))
    rw [terminals_cons t ts, ← h t (by simp), ← hts, List.filterMap_cons]
    cases prune? t with
    | none => rfl
    | some kept => exact terminals_cons kept _

/-- Pruning keeps every terminal of a tree. -/
theorem terminals_prune? (t : SyntaxTree) : terminals (prune? t).toList = terminals [t] := by
  induction t with
  | node info children ih =>
    have hkept := terminals_filterMap_prune? ih
    rw [prune?_node]
    split
    · rfl
    · rename_i hk
      rw [terminals_inner hk, ← hkept]
      simp only
      split
      · rename_i hnil
        rw [hnil]
        rfl
      · rw [Option.toList_some, terminals_inner (by exact hk)]

/-- Pruning keeps every terminal of some trees, in order. -/
theorem terminals_pruneAll (ts : List SyntaxTree) : terminals (pruneAll ts) = terminals ts := by
  rw [pruneAll_eq]
  exact terminals_filterMap_prune? (fun t _ => terminals_prune? t)

theorem mem_edgesBelow {info : NodeInfo} {ts : List SyntaxTree} {e : NodeInfo × NodeInfo} :
    e ∈ edgesBelow info ts ↔ ∃ t ∈ ts, e = (info, t.info) ∨ e ∈ t.edges := by
  induction ts with
  | nil => simp [edgesBelow]
  | cons t ts ih => simp [edgesBelow, ih, or_assoc]

/-- The lower end of an edge is a node of the tree. -/
theorem mem_infos_of_mem_edges {t : SyntaxTree} {e : NodeInfo × NodeInfo} (h : e ∈ t.edges) : e.2 ∈ t.infos := by
  induction t with
  | node info children ih =>
    rw [infos_node, List.mem_cons, List.mem_flatMap]
    obtain ⟨t, ht, rfl | he⟩ := mem_edgesBelow.1 h
    · refine Or.inr ⟨t, ht, ?_⟩
      cases t
      simp [infos_node, SyntaxTree.info]
    · exact Or.inr ⟨t, ht, ih t ht he⟩

/-- Every edge of a tree is of the given kind. -/
def Linked (R : NodeInfo → NodeInfo → Prop) (t : SyntaxTree) : Prop := ∀ e ∈ t.edges, R e.1 e.2

theorem linked_node {R : NodeInfo → NodeInfo → Prop} {info : NodeInfo} {ts : List SyntaxTree} :
    (node info ts).Linked R ↔ ∀ t ∈ ts, R info t.info ∧ t.Linked R := by
  constructor
  · intro h t ht
    refine ⟨h (info, t.info) (mem_edgesBelow.2 ⟨t, ht, Or.inl rfl⟩), fun e he => ?_⟩
    exact h e (mem_edgesBelow.2 ⟨t, ht, Or.inr he⟩)
  · intro h e he
    obtain ⟨t, ht, rfl | he⟩ := mem_edgesBelow.1 he
    · exact (h t ht).1
    · exact (h t ht).2 e he

theorem Linked.mono {R S : NodeInfo → NodeInfo → Prop} {t : SyntaxTree} (h : t.Linked R) (hRS : ∀ p c, R p c → S p c) :
    t.Linked S := fun e he => hRS e.1 e.2 (h e he)

/-- A relation of nodes that does not read their confidences. -/
def IgnoresConfidence (R : NodeInfo → NodeInfo → Prop) : Prop :=
  ∀ p c x y, R p c → R { p with confidence := x } { c with confidence := y }

/-- A pruned tree says at its root what it said before, up to the confidence. -/
theorem info_prune? {t kept : SyntaxTree} (h : t.prune? = some kept) : ∃ x, kept.info = { t.info with confidence := x } := by
  cases t with
  | node info children =>
    rw [prune?_node] at h
    split at h
    · cases h
      exact ⟨info.confidence, rfl⟩
    · simp only at h
      split at h
      · simp at h
      · cases h
        exact ⟨_, rfl⟩

/-- Pruning keeps the kind of all edges. -/
theorem Linked.prune? {R : NodeInfo → NodeInfo → Prop} (hR : IgnoresConfidence R) {t kept : SyntaxTree} (ht : t.Linked R)
    (h : t.prune? = some kept) : kept.Linked R := by
  induction t generalizing kept with
  | node info children ih =>
    rw [prune?_node] at h
    split at h
    · cases h
      exact ht
    · simp only at h
      split at h
      · simp at h
      · cases h
        rw [linked_node] at ht ⊢
        intro k hk
        obtain ⟨u, hu, hku⟩ := List.mem_filterMap.1 hk
        obtain ⟨x, hx⟩ := info_prune? hku
        refine ⟨?_, ih u hu (ht u hu).2 hku⟩
        rw [hx]
        exact hR _ _ _ _ (ht u hu).1

/-! ## Constructs -/

/-- Only constructs have children. -/
def OwnedByConstructs (t : SyntaxTree) : Prop := t.Linked (fun parent _ => parent.kind = .nonterminal)

/-- A terminal of such a tree is a leaf. -/
theorem OwnedByConstructs.children_eq_nil {info : NodeInfo} {children : List SyntaxTree}
    (h : (node info children).OwnedByConstructs) (hk : info.kind = .terminal) : children = [] := by
  unfold OwnedByConstructs at h
  rw [linked_node] at h
  cases children with
  | nil => rfl
  | cons t rest =>
    have hparent := (h t (by simp)).1
    rw [hk] at hparent
    cases hparent

end SyntaxTree

end TokenForest
