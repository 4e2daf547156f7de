import TokenForest.Proofs.Assembly.Matching

/-!
# The intents of terminals

A symbol goes to the gate with its intent in what is left of its row, or to end the block that it closes at the start of the row. So
a terminal has one of these intents, or its intent was changed at the gate with a note.
-/

namespace TokenForest

namespace Assembly

variable {grammar : Grammar} {intents : Position → Intent → Prop} {n n' : Notes} {items left : List Admitted} {item : Admitted}
  {lane lane' : OpenLane} {decisions : List Decision} {grid : Grid}

/-! ## Nodes -/

/-- A terminal has an intent that its position may have, or its change was noted. Constructs may have any. -/
def Stated (intents : Position → Intent → Prop) (n : Notes) (info : NodeInfo) : Prop :=
  info.kind = .terminal → info.id ∈ n.coerced ∨ ∃ p, info.position = some p ∧ intents p info.intent

/-- The edge leads to a stated node. -/
def StatedBelow (intents : Position → Intent → Prop) (n : Notes) (_parent child : NodeInfo) : Prop := Stated intents n child

theorem Stated.of_construct {info : NodeInfo} (h : info.kind = .nonterminal) : Stated intents n info := by
  intro hterminal
  rw [h] at hterminal
  cases hterminal

theorem Stated.mono {info : NodeInfo} (h : Stated intents n info) (hn : n.Grows n') : Stated intents n' info := by
  intro hterminal
  rcases h hterminal with hcoerced | hintent
  · exact Or.inl (hn.coerced.subset hcoerced)
  · exact Or.inr hintent

theorem StatedBelow.mono (hn : n.Grows n') (p c : NodeInfo) (h : StatedBelow intents n p c) : StatedBelow intents n' p c :=
  Stated.mono h hn

theorem statedBelow_ignoresConfidence : SyntaxTree.IgnoresConfidence (StatedBelow intents n) := by
  intro p c x y h
  exact h

/-- All nodes of a tree are stated when its root and the ends of its edges are. -/
theorem stated_infos {t : SyntaxTree} (hroot : Stated intents n t.info) (h : t.Linked (StatedBelow intents n)) :
    ∀ info ∈ t.infos, Stated intents n info := by
  induction t with
  | node info children ih =>
    rw [SyntaxTree.linked_node] at h
    intro i hi
    rw [SyntaxTree.infos_node] at hi
    rcases List.mem_cons.1 hi with rfl | hi
    · exact hroot
    · obtain ⟨t, ht, hi⟩ := List.mem_flatMap.1 hi
      exact ih t ht (h t ht).1 (h t ht).2 i hi

/-- The terminal of a symbol is stated when its position may have the intent of the symbol. -/
theorem terminalUnder_stated {parent : NodeInfo} {ts : List SyntaxTree} (hitem : intents item.position item.intent)
    (h : (terminalUnder grammar parent item).run n = (ts, n')) :
    n.Grows n' ∧ ∀ t ∈ ts, Stated intents n' t.info ∧ t.Linked (StatedBelow intents n') := by
  obtain ⟨r, he, rfl⟩ := leaf_of_run h
  refine ⟨he.grows, fun t ht => ?_⟩
  cases r with
  | none => simp at ht
  | some info =>
    simp only [Option.map_some, Option.toList_some, List.mem_singleton] at ht
    subst ht
    refine ⟨fun _ => ?_, SyntaxTree.linked_node.2 (by simp)⟩
    change info.id ∈ n'.coerced ∨ ∃ p, info.position = some p ∧ intents p info.intent
    rcases he.intent_eq with rfl | ⟨hcoerced, _⟩
    · exact Or.inr ⟨item.position, rfl, hitem⟩
    · rw [he.permits.2]
      exact Or.inl hcoerced

/-! ## Rows -/

section Rows

variable {row row' : OpenRow} {path path' : List OpenNode}

/-- The notes grow, and all edges of the open path lead to stated nodes. -/
structure PathStated (intents : Position → Intent → Prop) (n : Notes) (path : List OpenNode) (n' : Notes) : Prop where
  grows : n.Grows n'
  sound : Sound (StatedBelow intents n') path

theorem PathStated.after {n₁ : Notes} (h : PathStated intents n₁ path n') (hn : n.Grows n₁) : PathStated intents n path n' :=
  ⟨hn.trans h.grows, h.sound⟩

/-- A symbol becomes a terminal below the innermost node. -/
theorem PathStated.terminal {x : OpenNode} {ts : List SyntaxTree} (hs : Sound (StatedBelow intents n) (x :: path))
    (hitem : intents item.position item.intent) (h : (terminalUnder grammar x.info item).run n = (ts, n')) :
    PathStated intents n (x.add ts :: path) n' := by
  obtain ⟨hgrows, hts⟩ := terminalUnder_stated hitem h
  exact ⟨hgrows, (hs.mono (StatedBelow.mono hgrows)).add hts⟩

/-- A symbol opens a construct below the innermost node, and is its first terminal. -/
theorem PathStated.opened {parent : Option NodeInfo} {child info : NodeInfo} {n₁ : Notes} {ts : List SyntaxTree}
    (hs : Sound (StatedBelow intents n) path) (hitem : intents item.position item.intent) (hkind : child.kind = .nonterminal)
    (he : Entered grammar parent child n (some info) n₁) (h : (terminalUnder grammar info item).run n₁ = (ts, n')) :
    PathStated intents n (⟨info, ts⟩ :: path) n' := by
  obtain ⟨hgrows, hts⟩ := terminalUnder_stated hitem h
  have hinfo : info.kind = .nonterminal := by
    rw [he.permits.2]
    exact hkind
  have hall := he.grows.trans hgrows
  exact ⟨hall, (hs.mono (StatedBelow.mono hall)).push hts (fun _ _ => Stated.of_construct hinfo) hinfo⟩

/-- A symbol keeps the nodes of the open path of its row stated. -/
theorem ItemAdded.stated (h : ItemAdded grammar item n path path' n') (hs : Sound (StatedBelow intents n) path)
    (hitem : intents item.position item.intent) : PathStated intents n path' n' := by
  cases h with
  | refused he => exact ⟨he.grows, hs.mono (StatedBelow.mono he.grows)⟩
  | opened he hterm => exact PathStated.opened hs hitem rfl he hterm
  | closed hterm =>
    obtain ⟨hgrows, hsound⟩ := PathStated.terminal hs hitem hterm
    exact ⟨hgrows, hsound.pop⟩
  | terminal hterm => exact PathStated.terminal hs hitem hterm

/-- The symbols of a row keep the nodes of its open path stated. -/
theorem RowAdded.stated {block : Option OpenNode} (h : RowAdded grammar row n items row' block n')
    (hs : Sound (StatedBelow intents n) (openPath row)) (hitems : ∀ item ∈ items, intents item.position item.intent) :
    PathStated intents n (block.toList ++ openPath row') n' := by
  induction h with
  | nil => exact ⟨Notes.Grows.refl _, hs⟩
  | refused _ he => exact ⟨he.grows, hs.mono (StatedBelow.mono he.grows)⟩
  | opened _ he hterm => exact PathStated.opened hs (hitems _ (by simp)) rfl he hterm
  | last _ h => exact h.stated hs (hitems _ (by simp))
  | cons h _ ih =>
    obtain ⟨hgrows, hsound⟩ := h.stated hs (hitems _ (by simp))
    exact (ih hsound fun x hx => hitems x (List.mem_cons_of_mem _ hx)).after hgrows

end Rows

/-! ## Lanes -/

/-- The nodes of a lane are stated, those that are still open among them. -/
structure LaneStated (intents : Position → Intent → Prop) (n : Notes) (lane : OpenLane) : Prop where
  linked : LaneLinked (StatedBelow intents n) lane
  roots : ∀ r ∈ lane.roots, Stated intents n r.info

namespace LaneStated

theorem empty : LaneStated intents n ⟨[], []⟩ := ⟨LaneLinked.empty, by simp⟩

theorem mono (h : LaneStated intents n lane) (hn : n.Grows n') : LaneStated intents n' lane :=
  ⟨h.linked.mono (StatedBelow.mono hn), fun r hr => (h.roots r hr).mono hn⟩

/-- Finished trees go into the innermost block, or among the roots. -/
theorem addStatements (h : LaneStated intents n lane) {ts : List SyntaxTree}
    (hts : ∀ t ∈ ts, Stated intents n t.info ∧ t.Linked (StatedBelow intents n)) :
    LaneStated intents n (Assembly.addStatements lane ts) := by
  have hadded := h.linked.addStatements (fun t ht => (hts t ht).2) (fun t ht _ _ => (hts t ht).1)
  obtain ⟨blocks, roots⟩ := lane
  cases blocks with
  | nil =>
    refine ⟨hadded, fun r hr => ?_⟩
    rcases List.mem_append.1 hr with hr | hr
    · exact h.roots r hr
    · exact (hts r hr).1
  | cons b rest => exact ⟨hadded, h.roots⟩

/-- Closing the innermost block puts its statement into the next one, or among the roots. -/
theorem closeBlock {b : OpenBlock} {rest : List OpenBlock} {roots : List SyntaxTree}
    (h : LaneStated intents n ⟨b :: rest, roots⟩) :
    LaneStated intents n (Assembly.addStatements ⟨rest, roots⟩ [Assembly.closeBlock b]) := by
  obtain ⟨y, hy, hinfo, hlinked, _⟩ := h.linked.exists_closeBlock
  have houter : LaneStated intents n ⟨rest, roots⟩ := ⟨h.linked.outer, h.roots⟩
  refine houter.addStatements fun t ht => ?_
  rw [List.mem_singleton.1 ht, hinfo]
  refine ⟨Stated.of_construct (h.linked.path.constructs y ?_), hlinked⟩
  rw [lanePath_cons]
  exact List.mem_append_left _ (List.mem_of_getLast? hy)

/-- A finished path is closed into the innermost block, or among the roots. -/
theorem addPath (h : LaneStated intents n lane) {path : List OpenNode} {y : OpenNode} (hpath : Sound (StatedBelow intents n) path)
    (hy : y ∈ path.getLast?) : LaneStated intents n (Assembly.addStatements lane (closePath path).toList) := by
  obtain ⟨t, ht, hlinked, hinfo, _⟩ := hpath.closePath hy
  rw [ht, Option.toList_some]
  refine h.addStatements fun u hu => ?_
  rw [List.mem_singleton.1 hu, hinfo]
  exact ⟨Stated.of_construct (hpath.constructs y (List.mem_of_getLast? hy)), hlinked⟩

/-- A statement stays open around a block. -/
theorem openBlock (h : LaneStated intents n lane) {node y : OpenNode} {path : List OpenNode}
    (hpath : Sound (StatedBelow intents n) (node :: path)) (hy : y ∈ path.getLast?) :
    LaneStated intents n { lane with blocks := ⟨node, path⟩ :: lane.blocks } := by
  have hkind := hpath.constructs y (List.mem_cons_of_mem _ (List.mem_of_getLast? hy))
  exact ⟨h.linked.openBlock hpath hy fun _ _ => Stated.of_construct hkind, h.roots⟩

end LaneStated

/-! ## Symbols at the gate -/

/-- A closer at the start of a row goes to the gate as an end, and the rest of the row is left. -/
theorem CloserTaken.stated (h : CloserTaken grammar lane n items lane' left n') (hs : LaneStated intents n lane)
    (hoffered : ∀ p intent, Offered grammar items p intent → intents p intent) :
    n.Grows n' ∧ LaneStated intents n' lane' ∧ IsLeft grammar items left := by
  cases h with
  | nil => exact ⟨Notes.Grows.refl _, hs, Or.inl rfl⟩
  | passed => exact ⟨Notes.Grows.refl _, hs, Or.inl rfl⟩
  | stray => exact ⟨grows_warn _ _, hs.mono (grows_warn _ _), Or.inl rfl⟩
  | @closed b outer roots ts _ _ first _ hcloses hterm =>
    have hintent : intents first.position .terminate := hoffered _ _ (.closer rfl hcloses rfl)
    have hclosed : n.Grows n' ∧ ∀ t ∈ ts, Stated intents n' t.info ∧ t.Linked (StatedBelow intents n') :=
      terminalUnder_stated hintent hterm
    obtain ⟨hgrows, hts⟩ := hclosed
    have hadd : LaneStated intents n' (addStatements ⟨b :: outer, roots⟩ ts) := (hs.mono hgrows).addStatements hts
    exact ⟨hgrows, hadd.closeBlock, Or.inr ⟨first, rfl, hcloses⟩⟩

/-- A finished statement of a row: it joins the lane, open around a block or closed, or is left out with all that is in it. -/
theorem addRowTree_stated {row : OpenRow} {block : Option OpenNode} (hs : LaneStated intents n lane)
    (hrow : Sound (StatedBelow intents n) (block.toList ++ openPath row))
    (h : (addRowTree grammar lane row block).run n = (lane', n')) : n.Grows n' ∧ LaneStated intents n' lane' := by
  obtain ⟨r, n₁, hrun, h⟩ := run_bind h
  have he := entered_of_run hrun
  have hlane := hs.mono he.grows
  cases r with
  | none =>
    cases h
    exact ⟨he.grows, hlane⟩
  | some info =>
    have hkind : info.kind = .nonterminal := by
      rw [he.permits.2]
      exact hrow.constructs row.statement (by simp [openPath])
    have hsplit : block.toList ++ openPath row = (block.toList ++ row.groups.map (·.node)) ++ [row.statement] := by
      rw [openPath, List.append_assoc]
    have hpath : Sound (StatedBelow intents n₁)
        ((block.toList ++ row.groups.map (·.node)) ++ [{ row.statement with info }]) :=
      (hsplit ▸ hrow).relabel (fun c hc => StatedBelow.mono he.grows info c hc) (StatedBelow.mono he.grows) hkind
    cases block with
    | some node =>
      cases h
      exact ⟨he.grows, hlane.openBlock (y := { row.statement with info }) hpath (by simp [openPath])⟩
    | none =>
      cases h
      exact ⟨he.grows, hlane.addPath (y := { row.statement with info }) hpath (by simp [openPath])⟩

/-- The statement made of what is left of a row. -/
theorem addStatement_stated {laneId : Lane} {number : Nat} (hs : LaneStated intents n lane)
    (hitems : ∀ item ∈ classified grammar items, intents item.position item.intent)
    (h : (addStatement grammar laneId number lane items).run n = (lane', n')) : n.Grows n' ∧ LaneStated intents n' lane' := by
  cases items with
  | nil =>
    cases h
    exact ⟨Notes.Grows.refl _, hs⟩
  | cons first rest =>
    obtain ⟨row, block, n₁, n₂, hadded, hwarned, h⟩ := rowAdded_of_run h
    obtain ⟨hgrows, hsound⟩ := hadded.stated (sound_emptyRow laneId number first rest) hitems
    have hwarn := hwarned.grows
    obtain ⟨hgrows', hlane⟩ := addRowTree_stated (hs.mono (hgrows.trans hwarn)) (hsound.mono (StatedBelow.mono hwarn)) h
    exact ⟨(hgrows.trans hwarn).trans hgrows', hlane⟩

theorem addRow_stated {laneId : Lane} {entry : Nat × List Admitted} (hs : LaneStated intents n lane)
    (hoffered : ∀ p intent, Offered grammar entry.2 p intent → intents p intent)
    (h : (addRow grammar laneId lane entry).run n = (lane', n')) : n.Grows n' ∧ LaneStated intents n' lane' := by
  obtain ⟨⟨lane₁, left⟩, n₁, hrun, h⟩ := run_bind h
  obtain ⟨hgrows, hlane, hleft⟩ := (closerTaken_of_run hrun).stated hs hoffered
  obtain ⟨hgrows', hlane'⟩ := addStatement_stated hlane (fun item hitem => hoffered _ _ (.inRow hleft hitem rfl)) h
  exact ⟨hgrows.trans hgrows', hlane'⟩

theorem addRows_stated {laneId : Lane} {rows : List (Nat × List Admitted)} (hs : LaneStated intents n lane)
    (hoffered : ∀ entry ∈ rows, ∀ p intent, Offered grammar entry.2 p intent → intents p intent)
    (h : (rows.foldlM (addRow grammar laneId) lane).run n = (lane', n')) : n.Grows n' ∧ LaneStated intents n' lane' := by
  induction rows generalizing lane n with
  | nil =>
    cases h
    exact ⟨Notes.Grows.refl _, hs⟩
  | cons entry rows ih =>
    rw [List.foldlM_cons] at h
    obtain ⟨lane₁, n₁, hrun, h⟩ := run_bind h
    obtain ⟨hgrows, hlane⟩ := addRow_stated hs (hoffered entry (by simp)) hrun
    obtain ⟨hgrows', hlane'⟩ := ih hlane (fun e he => hoffered e (by simp [he])) h
    exact ⟨hgrows.trans hgrows', hlane'⟩

/-- The finished roots of a lane. -/
theorem laneRoots_stated {laneId : Lane} {rows : List (Nat × List Admitted)} {roots : List SyntaxTree}
    (hoffered : ∀ entry ∈ rows, ∀ p intent, Offered grammar entry.2 p intent → intents p intent)
    (h : (laneRoots grammar laneId rows).run n = (roots, n')) :
    n.Grows n' ∧ ∀ r ∈ roots, ∀ info ∈ r.infos, Stated intents n' info := by
  obtain ⟨lane, n₁, hrun, h⟩ := run_bind h
  obtain ⟨hgrows, hlane⟩ := addRows_stated LaneStated.empty hoffered hrun
  obtain ⟨_, n₂, hwarn, h⟩ := run_bind h
  cases h
  have hwarned := grows_warnings hwarn
  refine ⟨hgrows.trans hwarned, fun r hr => ?_⟩
  have hclosed : LaneStated intents n' ⟨[], closeLane lane⟩ :=
    closeLane_induction (hlane.mono hwarned) fun _ _ _ => LaneStated.closeBlock
  rw [SyntaxTree.pruneAll_eq] at hr
  obtain ⟨t, ht, hprune⟩ := List.mem_filterMap.1 hr
  obtain ⟨x, hx⟩ := SyntaxTree.info_prune? hprune
  have hroot : Stated intents n' r.info := by
    rw [hx]
    exact hclosed.roots t ht
  exact stated_infos hroot ((hclosed.linked.roots t ht).prune? statedBelow_ignoresConfidence hprune)

/-! ## The forest -/

/-- A symbol of a row goes to the gate as one of the row. -/
theorem mem_of_offered {p : Position} {intent : Intent} (h : Offered grammar items p intent) : ∃ item ∈ items, item.position = p := by
  cases h with
  | inRow hleft hitem hp =>
    obtain ⟨original, horiginal, hposition⟩ := mem_classified hitem
    rcases hleft with rfl | ⟨first, rfl, _⟩
    · exact ⟨original, horiginal, hposition.trans hp⟩
    · exact ⟨original, List.mem_cons_of_mem _ horiginal, hposition.trans hp⟩
  | closer hitems _ hp => exact ⟨_, by rw [hitems]; exact List.mem_cons_self, hp⟩

theorem offeredAt_of_mem_admittedRows {laneId : Lane} {entry : Nat × List Admitted} (h : entry ∈ admittedRows grid decisions laneId)
    {p : Position} {intent : Intent} (hoffered : Offered grammar entry.2 p intent) : OfferedAt grammar decisions grid p intent := by
  obtain ⟨item, hitem, rfl⟩ := mem_of_offered hoffered
  obtain ⟨hlane, hrow⟩ := place_of_mem_admittedRows h item hitem
  obtain ⟨row, _, rfl⟩ := List.mem_map.1 h
  unfold OfferedAt
  rw [hlane, hrow]
  exact hoffered

theorem lanes_stated {lanes : List Lane} {roots : List (List SyntaxTree)}
    (h : (lanes.mapM (fun lane => laneRoots grammar lane (admittedRows grid decisions lane))).run n = (roots, n')) :
    n.Grows n' ∧ ∀ r ∈ roots.flatten, ∀ info ∈ r.infos, Stated (OfferedAt grammar decisions grid) n' info := by
  induction lanes generalizing n roots with
  | nil =>
    cases h
    exact ⟨Notes.Grows.refl _, by simp⟩
  | cons lane lanes ih =>
    obtain ⟨first, others, n₁, rfl, hfirst, hothers⟩ := run_mapM_cons h
    obtain ⟨hgrows, hstated⟩ := laneRoots_stated (fun _ hentry _ _ => offeredAt_of_mem_admittedRows hentry) hfirst
    obtain ⟨hgrows', hstated'⟩ := ih hothers
    refine ⟨hgrows.trans hgrows', fun r hr info hinfo => ?_⟩
    rcases List.mem_append.1 hr with hr | hr
    · exact (hstated r hr info hinfo).mono hgrows'
    · exact hstated' r hr info hinfo

/-- Every terminal of an assembled forest has an intent that its symbol went to the gate with, or its change was noted. -/
theorem ofDecisions_stated (decisions : List Decision) (grid : Grid) (grammar : Grammar) :
    ∀ r ∈ (ofDecisions decisions grid grammar).roots, ∀ info ∈ r.infos,
      Stated (OfferedAt grammar decisions grid) (ofDecisions decisions grid grammar).notes info := by
  obtain ⟨trees, hrun, hroots⟩ := exists_run_ofDecisions decisions grid grammar
  rw [hroots]
  exact (lanes_stated hrun).2

end Assembly

end TokenForest
