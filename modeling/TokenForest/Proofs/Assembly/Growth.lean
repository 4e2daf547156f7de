import TokenForest.Assembly.Nesting
import TokenForest.Proofs.Assembly.Following
import TokenForest.Proofs.SyntaxTree.Growth

/-!
# Lanes that grow

What a lane has come to is seen in the roots that it would have if it ended now. A row adds one tree to them, below the innermost block
or among the roots, and closing a block changes nothing; so from row to row only blocks get more children, and every other node
keeps those that it was finished with. The warnings about open groups are noted row by row.
-/

namespace TokenForest

namespace Assembly

open SyntaxTree (Grown)

variable {grammar : Grammar} {n n' n'' : Notes} {lane lane' lane'' : OpenLane} {ts us : List SyntaxTree}

/-! ## Finished and open trees -/

theorem grown_plug {t u : SyntaxTree} (h : Grown IsBlock t u) (path : List OpenNode) :
    Grown IsBlock (OpenNode.plug path t) (OpenNode.plug path u) := by
  induction path generalizing t u with
  | nil => exact h
  | cons x path ih =>
    apply ih
    exact SyntaxTree.grown_of_children (List.rel_append (Grown.refls _ x.children) (.cons h .nil))

theorem mem_subtrees_plug (path : List OpenNode) (t : SyntaxTree) : t ∈ (OpenNode.plug path t).subtrees := by
  induction path generalizing t with
  | nil => exact SyntaxTree.self_mem_subtrees t
  | cons x path ih =>
    apply SyntaxTree.mem_subtrees_trans (ih (x.add [t]).close)
    rw [OpenNode.close, SyntaxTree.subtrees_node, List.mem_cons, List.mem_flatMap]
    exact Or.inr ⟨t, by simp [OpenNode.add], SyntaxTree.self_mem_subtrees t⟩

theorem closeLane_nil (roots : List SyntaxTree) : closeLane ⟨[], roots⟩ = roots := List.append_nil roots

/-- Where a statement grows, so does the lane. -/
theorem closeLane_grown (h : List.Forall₂ (Grown IsBlock) ts us) (lane : OpenLane) :
    List.Forall₂ (Grown IsBlock) (closeLane (addStatements lane ts)) (closeLane (addStatements lane us)) := by
  obtain ⟨blocks, roots⟩ := lane
  induction blocks generalizing ts us with
  | nil =>
    rw [addStatements, addStatements, closeLane_nil, closeLane_nil]
    exact List.rel_append (Grown.refls _ roots) h
  | cons b rest ih =>
    rw [addStatements, addStatements, closeLane_cons, closeLane_cons]
    apply ih
    refine .cons ?_ .nil
    apply grown_plug
    exact SyntaxTree.grown_of_children (List.rel_append (Grown.refls _ b.node.children) h)

/-- A statement of a lane stands in one of its roots. -/
theorem exists_mem_closeLane {t : SyntaxTree} (ht : t ∈ ts) (lane : OpenLane) :
    ∃ r ∈ closeLane (addStatements lane ts), t ∈ r.subtrees := by
  obtain ⟨blocks, roots⟩ := lane
  induction blocks generalizing t ts with
  | nil =>
    rw [addStatements, closeLane_nil]
    exact ⟨t, List.mem_append_right _ ht, SyntaxTree.self_mem_subtrees t⟩
  | cons b rest ih =>
    rw [addStatements, closeLane_cons]
    obtain ⟨r, hr, hb⟩ := ih (List.mem_singleton_self (closeBlock { b with node := b.node.add ts }))
    refine ⟨r, hr, SyntaxTree.mem_subtrees_trans hb (SyntaxTree.mem_subtrees_trans (mem_subtrees_plug b.path _) ?_)⟩
    rw [OpenNode.close, SyntaxTree.subtrees_node, List.mem_cons, List.mem_flatMap]
    exact Or.inr ⟨t, List.mem_append_right _ ht, SyntaxTree.self_mem_subtrees t⟩

/-! ## Lanes that go on -/

/-- What the lane is waiting to close are blocks. -/
def Blocked (lane : OpenLane) : Prop := ∀ b ∈ lane.blocks, IsBlock b.node.info

/-- Every root of the first lane is found in the second one, with more children below blocks. -/
def Extended (lane lane' : OpenLane) : Prop := ∀ r ∈ closeLane lane, ∃ r' ∈ closeLane lane', Grown IsBlock r r'

theorem Extended.refl (lane : OpenLane) : Extended lane lane := fun r hr => ⟨r, hr, Grown.refl _ r⟩

theorem Extended.trans (h : Extended lane lane') (h' : Extended lane' lane'') : Extended lane lane'' := by
  intro r hr
  obtain ⟨r', hr', hgrown⟩ := h r hr
  obtain ⟨r'', hr'', hgrown'⟩ := h' r' hr'
  exact ⟨r'', hr'', hgrown.trans hgrown'⟩

theorem Blocked.addStatements (h : Blocked lane) (ts : List SyntaxTree) : Blocked (addStatements lane ts) := by
  obtain ⟨blocks, roots⟩ := lane
  cases blocks with
  | nil => exact h
  | cons b rest => exact List.forall_mem_cons.2 (List.forall_mem_cons.1 h)

/-- A lane with more statements in its innermost block or among its roots. -/
theorem extended_addStatements (h : Blocked lane) (ts : List SyntaxTree) : Extended lane (addStatements lane ts) := by
  obtain ⟨blocks, roots⟩ := lane
  cases blocks with
  | nil =>
    rw [Extended, addStatements, closeLane_nil, closeLane_nil]
    exact fun r hr => ⟨r, List.mem_append_left _ hr, Grown.refl _ r⟩
  | cons b rest =>
    have hgrown : Grown IsBlock (closeBlock b) (closeBlock { b with node := b.node.add ts }) :=
      grown_plug (SyntaxTree.grown_of_append (h b (by simp)) b.node.children ts) b.path
    rw [Extended, addStatements, closeLane_cons, closeLane_cons]
    intro r hr
    exact exists_of_forall₂_left (closeLane_grown (.cons hgrown .nil) ⟨rest, roots⟩) hr

/-- A closer at the start of a row. -/
theorem CloserTaken.extended {items left : List Admitted} (h : CloserTaken grammar lane n items lane' left n')
    (hb : Blocked lane) : Extended lane lane' ∧ Blocked lane' := by
  cases h with
  | nil => exact ⟨Extended.refl _, hb⟩
  | passed => exact ⟨Extended.refl _, hb⟩
  | stray => exact ⟨Extended.refl _, hb⟩
  | @closed b outer roots ts =>
    have hadded : Extended ⟨b :: outer, roots⟩ ⟨{ b with node := b.node.add ts } :: outer, roots⟩ := extended_addStatements hb ts
    have houter : Blocked ⟨outer, roots⟩ := fun c hc => hb c (List.mem_cons_of_mem _ hc)
    refine ⟨?_, houter.addStatements _⟩
    rw [Extended, ← closeLane_cons]
    exact hadded

/-- The lane with a row whose statement has been admitted. -/
def join (lane : OpenLane) (row : OpenRow) (block : Option OpenNode) : OpenLane :=
  match block with
  | some node => { lane with blocks := ⟨node, openPath row⟩ :: lane.blocks }
  | none => addStatements lane (closePath (openPath row)).toList

/-- The tree of a row, closed where it stands. -/
def rowTrees (row : OpenRow) (block : Option OpenNode) : List SyntaxTree :=
  match block with
  | some node => [OpenNode.plug (openPath row) node.close]
  | none => (closePath (openPath row)).toList

/-- A row that joins a lane brings its tree, whether its block is open or not. -/
theorem closeLane_join (lane : OpenLane) (row : OpenRow) (block : Option OpenNode) :
    closeLane (join lane row block) = closeLane (addStatements lane (rowTrees row block)) := by
  cases block with
  | none => rfl
  | some node => exact closeLane_cons ⟨node, openPath row⟩ lane.blocks lane.roots

theorem Blocked.join (h : Blocked lane) {row : OpenRow} {block : Option OpenNode} (hblock : ∀ node ∈ block, IsBlock node.info) :
    Blocked (join lane row block) := by
  cases block with
  | none => exact h.addStatements _
  | some node => exact List.forall_mem_cons.2 ⟨hblock node rfl, h⟩

/-- The statement of a row goes through the gate, and the row joins the lane unless it is left out. -/
theorem joined_of_run {row : OpenRow} {block : Option OpenNode} (h : (addRowTree grammar lane row block).run n = (lane', n')) :
    ∃ r, Entered grammar (container lane) row.statement.info n r n' ∧
      lane' = (r.map fun info => join lane { row with statement := { row.statement with info } } block).getD lane := by
  obtain ⟨r, n₁, hrun, h⟩ := run_bind h
  have he := entered_of_run hrun
  cases r with
  | none =>
    cases h
    exact ⟨none, he, rfl⟩
  | some info =>
    cases block <;>
    · cases h
      exact ⟨some info, he, rfl⟩

/-- What a row opens at its end is a block. -/
theorem RowAdded.isBlock {row row' : OpenRow} {items : List Admitted} {block : Option OpenNode}
    (h : RowAdded grammar row n items row' block n') : ∀ node ∈ block, IsBlock node.info := by
  induction h with
  | nil => simp
  | refused => simp
  | opened _ he =>
    intro node hnode
    obtain rfl := Option.some.inj hnode
    obtain ⟨_, hinfo⟩ := he.permits
    rw [IsBlock, hinfo]
    exact ⟨rfl, rfl⟩
  | last => simp
  | cons _ _ ih => exact ih

/-- A row that is added extends the lane. -/
theorem extended_of_joined (hb : Blocked lane) {row : OpenRow} {block : Option OpenNode} (hblock : ∀ node ∈ block, IsBlock node.info)
    (h : (addRowTree grammar lane row block).run n = (lane', n')) : Extended lane lane' ∧ Blocked lane' := by
  obtain ⟨r, _, rfl⟩ := joined_of_run h
  cases r with
  | none => exact ⟨Extended.refl lane, hb⟩
  | some info =>
    refine ⟨?_, hb.join hblock⟩
    have hadded := extended_addStatements hb (rowTrees { row with statement := { row.statement with info } } block)
    rw [Extended, ← closeLane_join] at hadded
    exact hadded

end Assembly

end TokenForest
