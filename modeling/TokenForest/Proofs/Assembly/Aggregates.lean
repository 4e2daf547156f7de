import TokenForest.Proofs.Assembly.SourceOrder
import TokenForest.Proofs.Forest.Losses

/-!
# The least confidence below a node

A construct of an assembled forest owns at least one terminal, and its confidence is the least of those of the terminals that it owns:
each step of the aggregation takes the least confidence of some children, and settled numbers are not changed by its rounding. What
was left out or pruned has no part in it, since pruning comes before aggregating.
-/

namespace TokenForest

namespace SyntaxTree

/-! ## The least confidence of the terminals -/

/-- The tree has terminals, and its root has the least of their confidences. -/
inductive LeastOfTerminals (t : SyntaxTree) : Prop where
  | of (first : Binary64) (rest : List Binary64) (confidences : (terminals [t]).map (·.confidence) = first :: rest)
      (root : t.info.confidence = least first rest)

/-- The terminals of some trees have settled confidences. -/
def TerminalsSettled (ts : List SyntaxTree) : Prop := ∀ info ∈ terminals ts, info.confidence.Settled

theorem TerminalsSettled.cons {t : SyntaxTree} {ts : List SyntaxTree} (h : TerminalsSettled (t :: ts)) :
    TerminalsSettled [t] ∧ TerminalsSettled ts := by
  unfold TerminalsSettled at h
  rw [terminals_cons] at h
  exact ⟨fun info hinfo => h info (List.mem_append_left _ hinfo), fun info hinfo => h info (List.mem_append_right _ hinfo)⟩

theorem TerminalsSettled.forall_confidence {ts : List SyntaxTree} (h : TerminalsSettled ts) :
    ∀ x ∈ (terminals ts).map (·.confidence), x.Settled := by
  intro x hx
  obtain ⟨info, hinfo, rfl⟩ := List.mem_map.1 hx
  exact h info hinfo

/-- A leaf for a symbol is its only terminal. -/
theorem leastOfTerminals_leaf {info : NodeInfo} (h : info.kind = .terminal) : (node info []).LeastOfTerminals := by
  refine ⟨info.confidence, [], ?_, rfl⟩
  rw [terminals_leaf h]
  rfl

/-- The root has the confidence of one of the terminals. -/
theorem LeastOfTerminals.mem {t : SyntaxTree} (h : t.LeastOfTerminals) :
    t.info.confidence ∈ (terminals [t]).map (·.confidence) := by
  obtain ⟨first, rest, hmap, hleast⟩ := h
  rw [hmap, hleast]
  exact least_mem first rest

/-- The root has a confidence that is not above that of any terminal. -/
theorem LeastOfTerminals.le {t : SyntaxTree} (h : t.LeastOfTerminals) (hset : TerminalsSettled [t]) :
    ∀ x ∈ (terminals [t]).map (·.confidence), t.info.confidence ≤ x := by
  have hconfidences := hset.forall_confidence
  obtain ⟨first, rest, hmap, hleast⟩ := h
  rw [hmap] at hconfidences ⊢
  rw [hleast]
  exact least_le fun x hx => (hconfidences x hx).ne_nan

/-- The least of the confidences of some trees is the least of those of all their terminals. -/
theorem least_of_leastOfTerminals {t : SyntaxTree} {ts : List SyntaxTree} (h : ∀ u ∈ t :: ts, u.LeastOfTerminals)
    (hset : TerminalsSettled (t :: ts)) : ∃ first rest, (terminals (t :: ts)).map (·.confidence) = first :: rest ∧
      least t.info.confidence (ts.map (·.info.confidence)) = least first rest := by
  induction ts generalizing t with
  | nil =>
    obtain ⟨first, rest, hmap, hleast⟩ := h t (by simp)
    exact ⟨first, rest, hmap, hleast⟩
  | cons u ts ih =>
    obtain ⟨hfirst, hothers⟩ := hset.cons
    have hconfidences := hfirst.forall_confidence
    obtain ⟨first, rest, hmap, hleast⟩ := h t (by simp)
    obtain ⟨first', rest', hmap', hleast'⟩ := ih (fun v hv => h v (by simp [hv])) hothers
    have hall := hothers.forall_confidence
    rw [hmap] at hconfidences
    rw [hmap'] at hall
    have hroot : t.info.confidence ≠ .nan := by
      rw [hleast]
      exact (hconfidences _ (least_mem first rest)).ne_nan
    have hsingle : ∀ x ∈ [t.info.confidence], x ≠ .nan := by simpa using hroot
    have hroots : ∀ x ∈ u.info.confidence :: ts.map (·.info.confidence), x ≠ .nan := by
      intro x hx
      rw [← List.map_cons (f := fun t : SyntaxTree => t.info.confidence)] at hx
      obtain ⟨v, hv, rfl⟩ := List.mem_map.1 hx
      obtain ⟨info, hinfo, heq⟩ := List.mem_map.1 (h v (by simp [List.mem_cons.1 hv])).mem
      have hmem : info ∈ terminals (u :: ts) := by
        rw [mem_terminals] at hinfo ⊢
        exact ⟨⟨v, hv, by simpa using hinfo.1⟩, hinfo.2⟩
      rw [← heq]
      exact (hothers info hmem).ne_nan
    refine ⟨first, rest ++ first' :: rest', ?_, ?_⟩
    · rw [terminals_cons, List.map_append, hmap, hmap', List.cons_append]
    · calc least t.info.confidence (u.info.confidence :: ts.map (·.info.confidence))
          = Binary64.min t.info.confidence (least u.info.confidence (ts.map (·.info.confidence))) :=
            least_append hsingle hroots
        _ = Binary64.min (least first rest) (least first' rest') := by rw [hleast, hleast']
        _ = least first (rest ++ first' :: rest') :=
            (least_append (fun x hx => (hconfidences x hx).ne_nan) fun x hx => (hall x hx).ne_nan).symm

/-- An inner node with the aggregated confidence of its children has the least confidence of its terminals when its children have. -/
theorem leastOfTerminals_inner {info : NodeInfo} (hk : info.kind ≠ .terminal) {kept : List SyntaxTree} (hne : kept ≠ [])
    (h : ∀ u ∈ kept, u.LeastOfTerminals) (hset : TerminalsSettled kept) :
    (node { info with confidence := aggregate info.confidence (kept.map (·.info.confidence)) } kept).LeastOfTerminals := by
  cases kept with
  | nil => exact absurd rfl hne
  | cons t ts =>
    obtain ⟨first, rest, hmap, hleast⟩ := least_of_leastOfTerminals h hset
    have hconfidences := hset.forall_confidence
    rw [hmap] at hconfidences
    refine ⟨first, rest, ?_, ?_⟩
    · rw [terminals_inner (by exact hk), hmap]
    · change (least t.info.confidence (ts.map (·.info.confidence))).roundSix = least first rest
      rw [hleast]
      exact (hconfidences _ (least_mem first rest)).2

/-- In what pruning leaves of a tree in which only constructs have children, every node has the least confidence of its terminals. -/
theorem leastOfTerminals_prune? {t kept : SyntaxTree} (hown : t.OwnedByConstructs) (hset : TerminalsSettled [t])
    (h : t.prune? = some kept) : ∀ u ∈ kept.subtrees, u.LeastOfTerminals := by
  induction t generalizing kept with
  | node info children ih =>
    rw [prune?_node] at h
    split at h
    · rename_i hk
      cases h
      obtain rfl := hown.children_eq_nil hk
      intro u hu
      rw [subtrees_node, List.flatMap_nil, List.mem_singleton] at hu
      rw [hu]
      exact leastOfTerminals_leaf hk
    · rename_i hk
      simp only at h
      split at h
      · cases h
      · rename_i hne
        cases h
        unfold TerminalsSettled at hset
        rw [terminals_inner hk] at hset
        have hbelow : ∀ k ∈ children.filterMap prune?, ∀ u ∈ k.subtrees, u.LeastOfTerminals := by
          intro k hkept
          obtain ⟨u, hu, huk⟩ := List.mem_filterMap.1 hkept
          refine ih u hu (linked_node.1 hown u hu).2 ?_ huk
          intro i hi
          rw [mem_terminals] at hi
          exact hset i (mem_terminals.2 ⟨⟨u, hu, by simpa using hi.1⟩, hi.2⟩)
        have hkept : TerminalsSettled (children.filterMap prune?) := by
          unfold TerminalsSettled
          rw [terminals_filterMap_prune? fun u _ => terminals_prune? u]
          exact hset
        intro u hu
        rw [subtrees_node] at hu
        rcases List.mem_cons.1 hu with rfl | hu
        · exact leastOfTerminals_inner hk hne (fun k hk => hbelow k hk k (self_mem_subtrees k)) hkept
        · obtain ⟨k, hk, hu⟩ := List.mem_flatMap.1 hu
          exact hbelow k hk u hu

end SyntaxTree

namespace Assembly

variable {decisions : List Decision} {grid : Grid} {grammar : Grammar}

/-! ## The least confidence below a node of an assembled forest -/

/-- Terminals with decisions for each of them. -/
theorem exists_decisions {infos : List NodeInfo} (h : ∀ info ∈ infos, ∃ d, DecidedBy decisions info d) :
    ∃ ds, List.Forall₂ (DecidedBy decisions) infos ds ∧ infos.map (·.confidence) = ds.map (·.finalPsi) := by
  induction infos with
  | nil => exact ⟨[], .nil, rfl⟩
  | cons info infos ih =>
    obtain ⟨d, hd⟩ := h info (by simp)
    obtain ⟨ds, hds, hmap⟩ := ih fun i hi => h i (by simp [hi])
    exact ⟨d :: ds, .cons hd hds, by simp [hmap, hd.confidence]⟩

/-- A node of which all nodes below have the least confidences of their terminals is bounded by each of these. -/
theorem bound_of_leastOfTerminals {t : SyntaxTree} (h : ∀ u ∈ t.subtrees, u.LeastOfTerminals)
    (hset : SyntaxTree.TerminalsSettled [t]) : ∀ info ∈ t.infos, t.info.confidence ≤ info.confidence := by
  intro info hinfo
  rw [← SyntaxTree.map_info_subtrees] at hinfo
  obtain ⟨u, hu, rfl⟩ := List.mem_map.1 hinfo
  apply (h t (SyntaxTree.self_mem_subtrees t)).le hset
  obtain ⟨i, hi, heq⟩ := List.mem_map.1 (h u hu).mem
  rw [← heq]
  exact List.mem_map_of_mem (SyntaxTree.terminals_subtrees hu i hi)

/-- Every node of an assembled forest owns a terminal and has the least final confidence of the decisions on its terminals, so none
below it has a smaller one, whatever was left out and pruned. -/
theorem ofDecisions_aggregated (hsettled : ∀ d ∈ decisions, d.status.isAdmitted = true → d.finalPsi.Settled) (grid : Grid)
    (grammar : Grammar) : ∀ r ∈ (ofDecisions decisions grid grammar).roots, ∀ t ∈ r.subtrees, Aggregated decisions t := by
  intro r hr
  have hdecided : ∀ info ∈ SyntaxTree.terminals [r], ∃ d, DecidedBy decisions info d ∧ d.finalPsi.Settled := by
    intro info hinfo
    rw [SyntaxTree.mem_terminals] at hinfo
    have hmem : info ∈ SyntaxTree.terminals (ofDecisions decisions grid grammar).roots :=
      SyntaxTree.mem_terminals.2 ⟨⟨r, hr, by simpa using hinfo.1⟩, hinfo.2⟩
    obtain ⟨p, _, hposition, d, _, hlatest, _, _, hconfidence⟩ := latest_of_mem_terminals hmem
    obtain rfl := hlatest.position
    obtain ⟨before, after, hsplit, _⟩ := hlatest.last
    exact ⟨d, ⟨hposition, hlatest, hconfidence⟩, hsettled d (by simp [hsplit]) hlatest.admitted⟩
  have hset : SyntaxTree.TerminalsSettled [r] := by
    intro info hinfo
    obtain ⟨d, hd, hpsi⟩ := hdecided info hinfo
    rw [hd.confidence]
    exact hpsi
  obtain ⟨whole, hprune, hown⟩ := exists_ownedByConstructs hr
  have hkept : SyntaxTree.terminals [r] = SyntaxTree.terminals [whole] := by
    rw [← SyntaxTree.terminals_prune? whole, hprune, Option.toList_some]
  have hleast : ∀ t ∈ r.subtrees, t.LeastOfTerminals := by
    refine SyntaxTree.leastOfTerminals_prune? hown ?_ hprune
    unfold SyntaxTree.TerminalsSettled
    rw [← hkept]
    exact hset
  intro t ht
  have hbelow := SyntaxTree.terminals_subtrees ht
  constructor
  · obtain ⟨ds, hds, hmap⟩ := exists_decisions fun info hinfo => (hdecided info (hbelow info hinfo)).imp fun _ h => h.1
    obtain ⟨first, rest, hconfidences, hroot⟩ := hleast t ht
    rw [hmap] at hconfidences
    obtain ⟨d, ds, rfl, rfl, rfl⟩ := List.map_eq_cons_iff.1 hconfidences
    exact ⟨d, ds, hds, hroot⟩
  · apply bound_of_leastOfTerminals
    · intro u hu
      exact hleast u (SyntaxTree.mem_subtrees_trans ht hu)
    · intro info hinfo
      exact hset info (hbelow info hinfo)

/-- Every symbol of the crossed brackets is accepted, each with another confidence. -/
def gradedDecisions : List Decision :=
  (crossedGrid.cells.zip [0.9, 0.8, 0.5, 0.75, 0.85, 1]).map (fun (cell, psi) =>
    Decision.accept cell.1 cell.2 ⟨⟨1, 1, 1, 1, inUnit_full⟩, psi⟩ 0)

/-- The crossed brackets, of which a statement with a smaller confidence is left out. -/
theorem ofDecisions_aggregated_graded : (∀ d ∈ gradedDecisions, d.status.isAdmitted = true → d.finalPsi.Settled) ∧
    (ofDecisions gradedDecisions crossedGrid .default).roots.map (·.info.confidence) = [0.8, 1] ∧
    ∀ r ∈ (ofDecisions gradedDecisions crossedGrid .default).roots, ∀ t ∈ r.subtrees, Aggregated gradedDecisions t := by
  have hsettled : ∀ d ∈ gradedDecisions, d.status.isAdmitted = true → d.finalPsi.Settled := by decide +kernel
  exact ⟨hsettled, by decide +kernel, ofDecisions_aggregated hsettled crossedGrid .default⟩

end Assembly

end TokenForest
