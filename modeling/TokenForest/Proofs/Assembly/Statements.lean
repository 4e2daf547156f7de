import TokenForest.Proofs.Assembly.Lanes
import TokenForest.Proofs.Intents

/-!
# Statements

What the rows of a lane do to it: a row may close the innermost block, and what is left of it becomes a statement, which is
finished or stays open around a block. At the end the open blocks are closed and empty constructs are pruned.
-/

namespace TokenForest

namespace Assembly

variable {grammar : Grammar} {origin : String → Intent → Prop} {n n' : Notes} {lane lane' : OpenLane}

theorem grows_warn (n : Notes) (text : String) : n.Grows (n.warn text) := ⟨List.prefix_refl _, List.prefix_refl _⟩

/-- What symbols with other intents become is what the symbols become. -/
theorem Placed.of_intents {items : List Admitted} {f : Nat → Admitted → Admitted} {infos : List NodeInfo}
    (hf : ∀ i item, ∃ intent, f i item = { item with intent }) (h : Placed n (items.mapIdx f) infos) :
    Placed n items infos := by
  induction items generalizing f infos with
  | nil => exact h
  | cons item items ih =>
    obtain ⟨intent, hintent⟩ := hf 0 item
    rw [List.mapIdx_cons, hintent] at h
    cases h with
    | kept other h =>
      have hrest := ih (fun i => hf (i + 1)) h
      exact .kept other hrest
    | lost hlost h =>
      have hrest := ih (fun i => hf (i + 1)) h
      exact .lost hlost hrest

/-! ## Closers -/

/-- What the start of a row does to a lane: nothing when no closer of blocks stands there, a warning when one does and no block is
open, and otherwise the closer is the last terminal of the innermost block, which is closed. -/
inductive CloserTaken (grammar : Grammar) : OpenLane → Notes → List Admitted → OpenLane → List Admitted → Notes → Prop where
  | nil {lane : OpenLane} {n : Notes} : CloserTaken grammar lane n [] lane [] n
  | passed {lane : OpenLane} {n : Notes} {first : Admitted} {rest : List Admitted}
      (hcloses : grammar.closesBlock first.symbol.lexeme = false) :
      CloserTaken grammar lane n (first :: rest) lane (first :: rest) n
  | stray {roots : List SyntaxTree} {n : Notes} {first : Admitted} {rest : List Admitted}
      (hcloses : grammar.closesBlock first.symbol.lexeme = true) :
      CloserTaken grammar ⟨[], roots⟩ n (first :: rest) ⟨[], roots⟩ (first :: rest)
        (n.warn s!"stray_block_closer:{first.position.label}")
  | closed {b : OpenBlock} {outer : List OpenBlock} {roots ts : List SyntaxTree} {n n' : Notes} {first : Admitted}
      {rest : List Admitted} (hcloses : grammar.closesBlock first.symbol.lexeme = true)
      (h : (terminalUnder grammar b.node.info { first with intent := .terminate }).run n = (ts, n')) :
      CloserTaken grammar ⟨b :: outer, roots⟩ n (first :: rest)
        (addStatements ⟨outer, roots⟩ [closeBlock { b with node := b.node.add ts }]) rest n'

theorem closerTaken_of_run {items left : List Admitted} (h : (takeCloser grammar lane items).run n = ((lane', left), n')) :
    CloserTaken grammar lane n items lane' left n' := by
  cases items with
  | nil =>
    cases h
    exact .nil
  | cons first rest =>
    rw [takeCloser] at h
    split at h
    · rename_i hcloses
      obtain ⟨blocks, roots⟩ := lane
      cases blocks with
      | nil =>
        cases h
        exact .stray hcloses
      | cons b outer =>
        obtain ⟨ts, n₁, hterm, h⟩ := run_bind h
        cases h
        exact .closed hcloses hterm
    · rename_i hcloses
      cases h
      exact .passed (by simpa using hcloses)

/-- A closer at the start of a row closes the innermost block, as its last terminal. -/
theorem CloserTaken.laneStep {items left : List Admitted} (h : CloserTaken grammar lane n items lane' left n')
    (hs : LaneSound grammar origin n lane) : ∃ taken, items = taken ++ left ∧ LaneStep grammar origin lane n taken lane' n' := by
  cases h with
  | nil => exact ⟨[], rfl, LaneStep.refl hs (Notes.Grows.refl _)⟩
  | passed => exact ⟨[], rfl, LaneStep.refl hs (Notes.Grows.refl _)⟩
  | stray => exact ⟨[], rfl, LaneStep.refl hs (grows_warn _ _)⟩
  | @closed b outer roots ts _ _ first _ _ hterm =>
    obtain ⟨hgrows, hts, hplaced⟩ := terminalUnder_of_run hterm
    have hadd : LaneSound grammar origin n' (addStatements ⟨b :: outer, roots⟩ ts) := by
      refine (hs.mono hgrows).addStatements (fun t ht => (hts t ht).2.mono fun _ _ => Or.inl) ?_ (by simp [lanePath])
      intro t ht x hx
      rw [lanePath_cons, List.cons_append, List.head?_cons, Option.mem_some_iff] at hx
      exact Or.inl (hx ▸ (hts t ht).1)
    refine ⟨[first], rfl, hgrows, hadd.closeBlock, _, ?_, Placed.of_intents (f := fun _ item =>
      { item with intent := .terminate }) (fun _ item => ⟨_, rfl⟩) hplaced⟩
    rw [laneTerminals_closeBlock hadd]
    exact laneTerminals_addStatements ⟨b :: outer, roots⟩ ts

/-! ## Statements -/

/-- The row that begins with a symbol: a statement in which nothing stands yet. -/
def emptyRow (laneId : Lane) (number : Nat) (first : Admitted) (rest : List Admitted) : OpenRow :=
  ⟨⟨constructInfo (statementId laneId number) "statement" (Intents.ofStatement ((first :: rest).map (·.symbol))) first.position, []⟩, []⟩

theorem sound_emptyRow {R : NodeInfo → NodeInfo → Prop} (laneId : Lane) (number : Nat) (first : Admitted) (rest : List Admitted) :
    Sound R (openPath (emptyRow laneId number first rest)) :=
  Sound.nil.push (by simp [emptyRow]) (by simp) rfl

/-- The notes on a row to which all symbols have been added: an open group is warned about. -/
inductive Warned (row : OpenRow) (n : Notes) : Notes → Prop
  | closed (h : unclosed? row = none) : Warned row n n
  | unclosed {label : String} (h : unclosed? row = some label) : Warned row n (n.warn s!"unclosed_group:{label}")

theorem Warned.grows {row : OpenRow} (h : Warned row n n') : n.Grows n' := by
  cases h with
  | closed => exact Notes.Grows.refl _
  | unclosed => exact grows_warn _ _

theorem Warned.mismatches {row : OpenRow} (h : Warned row n n') : n'.mismatches = n.mismatches := by
  cases h with
  | closed => rfl
  | unclosed => rfl

/-- A statement is made of an empty row to which the symbols are added. An open group is warned about, and the row joins the lane. -/
theorem statement_of_run {laneId : Lane} {number : Nat} {first : Admitted} {rest : List Admitted}
    (h : (addStatement grammar laneId number lane (first :: rest)).run n = (lane', n')) : ∃ previous row block n₁ n₂,
      (addItems grammar (emptyRow laneId number first rest) previous (classified grammar (first :: rest))).run n = ((row, block), n₁) ∧
        Warned row n₁ n₂ ∧ (addRowTree grammar lane row block).run n₂ = (lane', n') := by
  replace h := run_make h
  obtain ⟨⟨row, block⟩, n₁, hrun, h⟩ := run_bind h
  simp only at h
  split at h
  · rename_i hlabel
    exact ⟨_, row, block, n₁, _, hrun, .unclosed hlabel, h⟩
  · rename_i hlabel
    exact ⟨_, row, block, n₁, n₁, hrun, .closed hlabel, h⟩

/-- The same, with what the symbols do to the row. -/
theorem rowAdded_of_run {laneId : Lane} {number : Nat} {first : Admitted} {rest : List Admitted}
    (h : (addStatement grammar laneId number lane (first :: rest)).run n = (lane', n')) : ∃ row block n₁ n₂,
      RowAdded grammar (emptyRow laneId number first rest) n (classified grammar (first :: rest)) row block n₁ ∧
        Warned row n₁ n₂ ∧ (addRowTree grammar lane row block).run n₂ = (lane', n') := by
  obtain ⟨_, row, block, n₁, n₂, hrun, hwarned, h⟩ := statement_of_run h
  exact ⟨row, block, n₁, n₂, addItems_of_run hrun, hwarned, h⟩

theorem container_eq (lane : OpenLane) : container lane = (lanePath lane).head?.map (·.info) := by
  obtain ⟨blocks, roots⟩ := lane
  cases blocks <;> rfl

/-- Below its container an admitted statement has an intent that is permitted there. -/
theorem Entered.below_lane {child info : NodeInfo} (h : Entered grammar (container lane) child n (some info) n') :
    (∀ x ∈ (lanePath lane).head?, Gated grammar origin n' x.info info) ∧
      (lanePath lane = [] → grammar.permits none info.intent = true) := by
  obtain ⟨hp, _⟩ := h.permits
  rw [container_eq] at hp
  constructor
  · intro x hx
    rw [Option.mem_def.1 hx] at hp
    exact Or.inl hp
  · intro hnil
    rw [hnil] at hp
    exact hp

/-- An admitted statement may stand over all that it stood over before, if its change is noted. -/
theorem Entered.over_children {parent : Option NodeInfo} {child info : NodeInfo}
    (h : Entered grammar parent child n (some info) n') (hlabel : child.label = "statement")
    (horigin : origin child.id child.intent) (c : NodeInfo) (hc : Permitted grammar child c) :
    Gated grammar origin n' info c := by
  obtain ⟨_, hinfo⟩ := h.permits
  rcases h.intent_eq with rfl | ⟨hcoerced, hfallback⟩
  · exact Or.inl hc
  · refine Or.inr ⟨?_, ?_, child.intent, ?_, hfallback, hc⟩
    · rw [hinfo]
      exact hlabel
    · rw [hinfo]
      exact hcoerced
    · rw [hinfo]
      exact horigin

/-- A sound path is closed into the innermost block, or among the roots, with all that is on it. -/
theorem LaneSound.addPath (hs : LaneSound grammar origin n lane) {path : List OpenNode} {y : OpenNode}
    (hpath : Sound (Gated grammar origin n) path) (hy : y ∈ path.getLast?)
    (hblock : ∀ x ∈ (lanePath lane).head?, Gated grammar origin n x.info y.info)
    (hroot : lanePath lane = [] → grammar.permits none y.info.intent = true) :
    LaneSound grammar origin n (Assembly.addStatements lane (closePath path).toList) ∧
      laneTerminals (Assembly.addStatements lane (closePath path).toList) = laneTerminals lane ++ terminalsOn path := by
  obtain ⟨t, ht, hlinked, hinfo, hterminals⟩ := hpath.closePath hy
  rw [ht, Option.toList_some, laneTerminals_addStatements, hterminals]
  refine ⟨hs.addStatements ?_ ?_ ?_, rfl⟩
  · intro u hu
    rw [List.mem_singleton.1 hu]
    exact hlinked
  · intro u hu x hx
    rw [List.mem_singleton.1 hu, hinfo]
    exact hblock x hx
  · intro u hu hnil
    rw [List.mem_singleton.1 hu, hinfo]
    exact hroot hnil

/-- A finished statement of a row: it joins the lane, open around a block or closed, or is left out with all that is in it. -/
theorem addRowTree_of_run {row : OpenRow} {block : Option OpenNode} (hs : LaneSound grammar origin n lane)
    (hrow : Sound (Permitted grammar) (block.toList ++ openPath row)) (hlabel : row.statement.info.label = "statement")
    (horigin : origin row.statement.info.id row.statement.info.intent)
    (h : (addRowTree grammar lane row block).run n = (lane', n')) :
    n.Grows n' ∧ LaneSound grammar origin n' lane' ∧
      (lane' = lane ∧ (∃ m ∈ n'.mismatches, m.nodeId = row.statement.info.id) ∨
        laneTerminals lane' = laneTerminals lane ++ terminalsOn (block.toList ++ openPath row)) := by
  obtain ⟨r, n₁, hrun, h⟩ := run_bind h
  have he := entered_of_run hrun
  cases r with
  | none =>
    cases h
    exact ⟨he.grows, hs.mono he.grows, Or.inl ⟨rfl, he.noted⟩⟩
  | some info =>
    have hkind : info.kind = .nonterminal := by
      rw [he.permits.2]
      exact hrow.constructs row.statement (by simp [openPath])
    have hsplit : block.toList ++ openPath row = (block.toList ++ row.groups.map (·.node)) ++ [row.statement] := by
      rw [openPath, List.append_assoc]
    have hpath : Sound (Gated grammar origin n₁)
        ((block.toList ++ row.groups.map (·.node)) ++ [{ row.statement with info }]) :=
      (hsplit ▸ hrow).relabel (fun c hc => he.over_children hlabel horigin c hc) (fun _ _ => Or.inl) hkind
    have hterminals := terminalsOn_relabel (block.toList ++ row.groups.map (·.node)) row.statement info
    rw [← hsplit] at hterminals
    have hlane := hs.mono he.grows
    have hbelow : (∀ x ∈ (lanePath lane).head?, Gated grammar origin n₁ x.info info) ∧
        (lanePath lane = [] → grammar.permits none info.intent = true) := he.below_lane
    obtain ⟨hblock, hroot⟩ := hbelow
    cases block with
    | some node =>
      cases h
      refine ⟨he.grows, hlane.openBlock (y := { row.statement with info }) hpath ?_ hblock hroot, Or.inr ?_⟩
      · simp [openPath]
      · rw [laneTerminals_cons, ← hterminals]
        rfl
    | none =>
      cases h
      obtain ⟨hsound, hadded⟩ := hlane.addPath (y := { row.statement with info }) hpath (by simp) hblock hroot
      rw [hterminals] at hadded
      exact ⟨he.grows, hsound, Or.inr hadded⟩

/-- Warnings change nothing else. -/
theorem grows_warnings {α : Type} {f : α → String} {xs : List α} {u : Unit}
    (h : (xs.forM (fun x => (modify fun n => n.warn (f x) : Noting Unit))).run n = (u, n')) : n.Grows n' := by
  induction xs generalizing n with
  | nil =>
    cases h
    exact Notes.Grows.refl _
  | cons x xs ih =>
    obtain ⟨_, n₁, hwarn, h⟩ := run_bind h
    cases hwarn
    exact (grows_warn n (f x)).trans (ih h)

/-- The statement made of the symbols of a row. -/
theorem addStatement_of_run {laneId : Lane} {number : Nat} {items : List Admitted} (hs : LaneSound grammar origin n lane)
    (hplace : ∀ item ∈ items, item.position.lane = laneId ∧ item.position.row = number)
    (horigin : items ≠ [] → origin (statementId laneId number) (Intents.ofStatement (items.map (·.symbol))))
    (h : (addStatement grammar laneId number lane items).run n = (lane', n')) :
    LaneStep grammar origin lane n items lane' n' := by
  cases items with
  | nil =>
    cases h
    exact LaneStep.refl hs (Notes.Grows.refl _)
  | cons first rest =>
    obtain ⟨row, block, n₁, n₂, hadded, hwarned, h⟩ := rowAdded_of_run h
    have hwarn := hwarned.grows
    have hstep := hadded.pathStep (sound_emptyRow laneId number first rest)
    have hstatement : row.statement.info = constructInfo (statementId laneId number) "statement"
        (Intents.ofStatement ((first :: rest).map (·.symbol))) first.position := hadded.statement
    obtain ⟨hgrows, hsound, hkept⟩ := addRowTree_of_run (hs.mono (hstep.grows.trans hwarn)) hstep.sound
      (by rw [hstatement]; rfl) (by rw [hstatement]; exact horigin (by simp)) h
    refine ⟨(hstep.grows.trans hwarn).trans hgrows, hsound, ?_⟩
    rcases hkept with ⟨rfl, m, hm, hid⟩ | hkept
    · refine ⟨[], by simp, Placed.all_lost fun item hitem => ⟨m, hm, ?_⟩⟩
      obtain ⟨hl, hr⟩ := hplace item hitem
      rw [hid, hstatement]
      simp [constructInfo, namesAt, hl, hr]
    · obtain ⟨new, hnew, hplaced⟩ := hstep.terminals
      rw [classified_eq] at hplaced
      refine ⟨new, by rw [hkept, hnew]; rfl, ?_⟩
      exact (Placed.of_intents (fun _ item => ⟨_, rfl⟩) hplaced).mono (hwarn.trans hgrows)

/-! ## Rows of a lane -/

theorem addRow_of_run {laneId : Lane} {entry : Nat × List Admitted} (hs : LaneSound grammar origin n lane)
    (hplace : ∀ item ∈ entry.2, item.position.lane = laneId ∧ item.position.row = entry.1)
    (horigin : ∀ left, left <:+ entry.2 → left ≠ [] →
      origin (statementId laneId entry.1) (Intents.ofStatement (left.map (·.symbol))))
    (h : (addRow grammar laneId lane entry).run n = (lane', n')) : LaneStep grammar origin lane n entry.2 lane' n' := by
  obtain ⟨⟨lane₁, left⟩, n₁, hrun, h⟩ := run_bind h
  obtain ⟨taken, htaken, hstep⟩ := (closerTaken_of_run hrun).laneStep hs
  rw [htaken] at hplace horigin ⊢
  refine hstep.trans (addStatement_of_run hstep.sound (fun item hitem => hplace item (by simp [hitem])) ?_ h)
  exact horigin left (List.suffix_append _ _)

theorem addRows_of_run {laneId : Lane} {rows : List (Nat × List Admitted)} (hs : LaneSound grammar origin n lane)
    (hplace : ∀ entry ∈ rows, ∀ item ∈ entry.2, item.position.lane = laneId ∧ item.position.row = entry.1)
    (horigin : ∀ entry ∈ rows, ∀ left, left <:+ entry.2 → left ≠ [] →
      origin (statementId laneId entry.1) (Intents.ofStatement (left.map (·.symbol))))
    (h : (rows.foldlM (addRow grammar laneId) lane).run n = (lane', n')) :
    LaneStep grammar origin lane n (rows.flatMap (·.2)) lane' n' := by
  induction rows generalizing lane n with
  | nil =>
    cases h
    exact LaneStep.refl hs (Notes.Grows.refl _)
  | cons entry rows ih =>
    rw [List.foldlM_cons] at h
    obtain ⟨lane₁, n₁, hrun, h⟩ := run_bind h
    have hstep := addRow_of_run hs (hplace entry (by simp)) (horigin entry (by simp)) hrun
    exact hstep.trans (ih hstep.sound (fun e he => hplace e (by simp [he])) (fun e he => horigin e (by simp [he])) h)

/-! ## The end of a lane -/

theorem closeLane_cons (b : OpenBlock) (rest : List OpenBlock) (roots : List SyntaxTree) :
    closeLane ⟨b :: rest, roots⟩ = closeLane (addStatements ⟨rest, roots⟩ [closeBlock b]) := by
  cases rest <;> simp [closeLane, addStatements, closeBlock, OpenNode.add]

/-- What closing one block after the other keeps holds of a lane that has only finished roots, those of the lane at its end. -/
theorem closeLane_induction {P : OpenLane → Prop} (h : P lane) (hclose : ∀ b rest roots, P ⟨b :: rest, roots⟩ →
    P (addStatements ⟨rest, roots⟩ [closeBlock b])) : P ⟨[], closeLane lane⟩ := by
  induction hk : lane.blocks.length generalizing lane with
  | zero =>
    obtain ⟨blocks, roots⟩ := lane
    obtain rfl : blocks = [] := List.length_eq_zero_iff.1 hk
    have hroots : closeLane ⟨[], roots⟩ = roots := List.append_nil roots
    rw [hroots]
    exact h
  | succ k ih =>
    obtain ⟨blocks, roots⟩ := lane
    cases blocks with
    | nil => simp at hk
    | cons b rest =>
      rw [closeLane_cons]
      apply ih (hclose b rest roots h)
      rw [List.length_cons, Nat.add_right_cancel_iff] at hk
      cases rest <;> exact hk

/-- Closing what is open at the end of a lane keeps the kind of all edges. -/
theorem LaneLinked.closeLane {R : NodeInfo → NodeInfo → Prop} (h : LaneLinked R lane) :
    ∀ r ∈ Assembly.closeLane lane, r.Linked R :=
  (closeLane_induction h fun _ _ _ => LaneLinked.closeBlock).roots

/-- Closing what is open at the end of a lane keeps it sound, and the terminals with their order. -/
theorem LaneSound.closeLane (hs : LaneSound grammar origin n lane) :
    (∀ r ∈ Assembly.closeLane lane, Rooted grammar origin n r) ∧
      SyntaxTree.terminals (Assembly.closeLane lane) = laneTerminals lane := by
  have hclosed : LaneSound grammar origin n ⟨[], Assembly.closeLane lane⟩ ∧
      laneTerminals ⟨[], Assembly.closeLane lane⟩ = laneTerminals lane := by
    apply closeLane_induction (P := fun l => LaneSound grammar origin n l ∧ laneTerminals l = laneTerminals lane) ⟨hs, rfl⟩
    rintro b rest roots ⟨hb, hterminals⟩
    exact ⟨hb.closeBlock, (laneTerminals_closeBlock hb).trans hterminals⟩
  refine ⟨hclosed.1.roots, ?_⟩
  rw [← hclosed.2, laneTerminals, lanePath, List.flatMap_nil, terminalsOn, List.append_nil]

/-- Pruning keeps roots that went through the gate. -/
theorem rooted_pruneAll {ts : List SyntaxTree} (h : ∀ t ∈ ts, Rooted grammar origin n t) :
    ∀ t ∈ SyntaxTree.pruneAll ts, Rooted grammar origin n t := by
  intro t ht
  rw [SyntaxTree.pruneAll_eq] at ht
  obtain ⟨u, hu, hprune⟩ := List.mem_filterMap.1 ht
  obtain ⟨x, hx⟩ := SyntaxTree.info_prune? hprune
  obtain ⟨hroot, hlinked⟩ := h u hu
  refine ⟨?_, hlinked.prune? gated_ignoresConfidence hprune⟩
  rw [hx]
  exact hroot

/-- The finished roots of a lane. -/
theorem laneRoots_of_run {laneId : Lane} {rows : List (Nat × List Admitted)} {roots : List SyntaxTree}
    (hplace : ∀ entry ∈ rows, ∀ item ∈ entry.2, item.position.lane = laneId ∧ item.position.row = entry.1)
    (horigin : ∀ entry ∈ rows, ∀ left, left <:+ entry.2 → left ≠ [] →
      origin (statementId laneId entry.1) (Intents.ofStatement (left.map (·.symbol))))
    (h : (laneRoots grammar laneId rows).run n = (roots, n')) :
    n.Grows n' ∧ (∀ r ∈ roots, Rooted grammar origin n' r) ∧
      Placed n' (rows.flatMap (·.2)) (SyntaxTree.terminals roots) := by
  obtain ⟨lane, n₁, hrun, h⟩ := run_bind h
  have hempty : LaneSound grammar origin n ⟨[], []⟩ := LaneSound.empty
  have hstep := addRows_of_run hempty hplace horigin hrun
  obtain ⟨_, n₂, hwarn, h⟩ := run_bind h
  cases h
  have hgrows := grows_warnings hwarn
  obtain ⟨hroots, hterminals⟩ := (hstep.sound.mono hgrows).closeLane
  refine ⟨hstep.grows.trans hgrows, rooted_pruneAll hroots, ?_⟩
  obtain ⟨new, hnew, hplaced⟩ := hstep.terminals
  rw [SyntaxTree.terminals_pruneAll, hterminals, hnew]
  exact hplaced.mono hgrows

end Assembly

end TokenForest
