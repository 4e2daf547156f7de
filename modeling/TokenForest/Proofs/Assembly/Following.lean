import TokenForest.Proofs.Assembly.Blocks
import TokenForest.Proofs.Assembly.Statements

/-!
# Blocks and their brackets

The open blocks of a lane are those of the openers that wait for their closers, in the same order, as long as an opener whose block
or statement was left out is not counted. So the warnings are about the openers and closers that stayed alone, and a block holds no
symbol of a bracket but its own two.
-/

namespace TokenForest

namespace Assembly

variable {grammar : Grammar} {n n' n₀ : Notes} {lane lane' : OpenLane} {b b' : Brackets} {items left : List Admitted}

/-! ## Warnings about brackets -/

theorem ofKind_append (kind rest : String) : ofKind kind (kind ++ rest) = true := by
  unfold ofKind
  rw [List.isPrefixOf_iff_prefix, String.toList_append]
  exact List.prefix_append _ _

/-- A warning is of one kind only. -/
theorem ofKind_append_of_ne {kind other : String} (h : ¬kind.toList <+: other.toList) (h' : ¬other.toList <+: kind.toList)
    (rest : String) : ofKind kind (other ++ rest) = false := by
  unfold ofKind
  rw [Bool.eq_false_iff]
  intro hprefix
  rw [List.isPrefixOf_iff_prefix, String.toList_append] at hprefix
  rcases List.prefix_or_prefix_of_prefix hprefix (List.prefix_append _ _) with hk | hk
  · exact h hk
  · exact h' hk

theorem ofKind_strayText (p : Position) :
    ofKind "stray_block_closer:" (strayText p) = true ∧ ofKind "unclosed_block:" (strayText p) = false := by
  constructor
  · exact ofKind_append _ _
  · exact ofKind_append_of_ne (by decide) (by decide) _

theorem ofKind_unclosedText (p : Position) :
    ofKind "stray_block_closer:" (unclosedText p) = false ∧ ofKind "unclosed_block:" (unclosedText p) = true := by
  constructor
  · exact ofKind_append_of_ne (by decide) (by decide) _
  · exact ofKind_append _ _

/-- A warning about a group is none about a block. -/
theorem ofKind_unclosedGroup (label : String) : ofKind "stray_block_closer:" s!"unclosed_group:{label}" = false ∧
    ofKind "unclosed_block:" s!"unclosed_group:{label}" = false := by
  constructor
  · exact ofKind_append_of_ne (by decide) (by decide) _
  · exact ofKind_append_of_ne (by decide) (by decide) _

/-! ## Edges below blocks -/

/-- A symbol below a block is the opener of the block, or the closer that met it. -/
def Bounded (b : Brackets) (parent child : NodeInfo) : Prop :=
  parent.kind = .nonterminal ∧ (parent.label = "block" → child.kind = .terminal → ∃ q p, parent.id = blockId q ∧
    parent.position = some q ∧ child.position = some p ∧ (p = q ∧ q ∈ b.openers ∨ (q, p) ∈ b.pairs))

/-- The second brackets have all openers and pairs of the first ones. -/
structure Brackets.Grows (b b' : Brackets) : Prop where
  openers : ∀ p ∈ b.openers, p ∈ b'.openers
  pairs : ∀ e ∈ b.pairs, e ∈ b'.pairs

theorem Bounded.mono (h : b.Grows b') (parent child : NodeInfo) (hb : Bounded b parent child) : Bounded b' parent child := by
  refine ⟨hb.1, ?_⟩
  intro hlabel hkind
  obtain ⟨q, p, hid, hq, hp, hbracket⟩ := hb.2 hlabel hkind
  refine ⟨q, p, hid, hq, hp, ?_⟩
  rcases hbracket with ⟨rfl, hopener⟩ | hpair
  · exact Or.inl ⟨rfl, h.openers p hopener⟩
  · exact Or.inr (h.pairs _ hpair)

theorem Bounded.of_plain (b : Brackets) (parent child : NodeInfo) (h : Plain parent child) : Bounded b parent child :=
  ⟨h.1, fun hlabel => absurd hlabel h.2⟩

/-- A construct may stand below every construct. -/
theorem Bounded.of_construct (b : Brackets) {parent child : NodeInfo} (hparent : parent.kind = .nonterminal)
    (hchild : child.kind = .nonterminal) : Bounded b parent child := by
  refine ⟨hparent, ?_⟩
  intro _ hterminal
  rw [hchild] at hterminal
  cases hterminal

theorem bounded_ignoresConfidence : SyntaxTree.IgnoresConfidence (Bounded b) := by
  intro p c x y h
  exact h

/-! ## Lanes that follow their brackets -/

/-- The block was opened at the position. -/
def WaitsAt (block : OpenBlock) (p : Position) : Prop :=
  block.node.info.id = blockId p ∧ block.node.info.position = some p

/-- The lane is where its brackets are: its open blocks are those whose openers wait, the symbols in blocks are their own brackets,
and of what was noted since `n₀` the warnings about blocks are those about stray closers. -/
structure Follows (n₀ : Notes) (b : Brackets) (lane : OpenLane) (n : Notes) : Prop where
  linked : LaneLinked (Bounded b) lane
  blocks : List.Forall₂ WaitsAt lane.blocks b.waiting
  strays : strayWarnings n = strayWarnings n₀ ++ b.strays.map strayText
  unclosed : unclosedWarnings n = unclosedWarnings n₀

namespace Follows

theorem empty (n : Notes) : Follows n .empty ⟨[], []⟩ n :=
  ⟨LaneLinked.empty, .nil, by simp [Brackets.empty], rfl⟩

/-- Notes without a warning do not matter. -/
theorem of_warnings (h : Follows n₀ b lane n) (hwarnings : n'.warnings = n.warnings) : Follows n₀ b lane n' := by
  refine ⟨h.linked, h.blocks, ?_, ?_⟩
  · unfold strayWarnings
    rw [hwarnings]
    exact h.strays
  · unfold unclosedWarnings
    rw [hwarnings]
    exact h.unclosed

/-- A warning about a group does not matter. -/
theorem warn_group (h : Follows n₀ b lane n) (label : String) : Follows n₀ b lane (n.warn s!"unclosed_group:{label}") := by
  obtain ⟨hstray, hunclosed⟩ := ofKind_unclosedGroup label
  refine ⟨h.linked, h.blocks, ?_, ?_⟩
  · rw [← h.strays]
    simp [strayWarnings, Notes.warn, hstray]
  · rw [← h.unclosed]
    simp [unclosedWarnings, Notes.warn, hunclosed]

/-- A closer that closes nothing is warned about. -/
theorem warn_stray (h : Follows n₀ b lane n) (p : Position) :
    Follows n₀ { b with strays := b.strays ++ [p] } lane (n.warn (strayText p)) := by
  obtain ⟨hstray, hunclosed⟩ := ofKind_strayText p
  refine ⟨h.linked, h.blocks, ?_, ?_⟩
  · rw [List.map_append, ← List.append_assoc, ← h.strays]
    simp [strayWarnings, Notes.warn, hstray]
  · rw [← h.unclosed]
    simp [unclosedWarnings, Notes.warn, hunclosed]

/-- The constructs of a lane are constructs. -/
theorem construct_of_head (h : Follows n₀ b lane n) : ∀ x ∈ (lanePath lane).head?, x.info.kind = .nonterminal := by
  intro x hx
  exact h.linked.path.constructs x (List.mem_of_mem_head? hx)

end Follows

/-! ## Closers -/

/-- Finished trees in a lane change no open block. -/
theorem waitsAt_addStatements {ps : List Position} (h : List.Forall₂ WaitsAt lane.blocks ps) (ts : List SyntaxTree) :
    List.Forall₂ WaitsAt (addStatements lane ts).blocks ps := by
  obtain ⟨blocks, roots⟩ := lane
  cases h with
  | nil => exact .nil
  | cons hb hrest => exact .cons hb hrest

/-- The closer of the innermost block becomes its last symbol, if it is admitted there. -/
theorem Follows.closeInnermost {block : OpenBlock} {rest : List OpenBlock} {roots : List SyntaxTree} {q p : Position}
    {outer : List Position} (hf : Follows n₀ b ⟨block :: rest, roots⟩ n) (hwaiting : b.waiting = q :: outer)
    {ts : List SyntaxTree} (hts : ∀ t ∈ ts, ∃ info, t = .node info [] ∧ info.kind = .terminal ∧ info.position = some p) :
    Follows n₀ { b with waiting := outer, pairs := b.pairs ++ [(q, p)] }
      (addStatements ⟨rest, roots⟩ [closeBlock { block with node := block.node.add ts }]) n := by
  have hgrows : b.Grows { b with waiting := outer, pairs := b.pairs ++ [(q, p)] } := by
    constructor
    · intro x hx
      simp only [Brackets.openers, hwaiting, List.map_append, List.mem_append, List.mem_cons, List.map_cons] at hx ⊢
      rcases hx with (rfl | hx) | hx
      · exact Or.inr (Or.inr (Or.inl rfl))
      · exact Or.inl hx
      · exact Or.inr (Or.inl hx)
    · intro e he
      exact List.mem_append_left _ he
  have hblocks := hf.blocks
  rw [hwaiting] at hblocks
  cases hblocks with
  | cons hblock hrest =>
    have hadded : LaneLinked (Bounded { b with waiting := outer, pairs := b.pairs ++ [(q, p)] })
        (addStatements ⟨block :: rest, roots⟩ ts) := by
      apply (hf.linked.mono (Bounded.mono hgrows)).addStatements
      · apply linked_leaf
        intro t ht
        obtain ⟨info, hinfo, _⟩ := hts t ht
        exact ⟨info, hinfo⟩
      · intro t ht x hx
        refine ⟨hf.construct_of_head x hx, ?_⟩
        intro _ _
        obtain ⟨info, rfl, _, hposition⟩ := hts t ht
        rw [lanePath_cons, List.cons_append, List.head?_cons, Option.mem_some_iff] at hx
        subst hx
        exact ⟨q, p, hblock.1, hblock.2, hposition, Or.inr (List.mem_append_right _ (List.mem_singleton.2 rfl))⟩
    exact ⟨hadded.closeBlock, waitsAt_addStatements hrest _, hf.strays, hf.unclosed⟩

/-- A closer at the start of a row does to the lane what it does to the brackets. -/
theorem CloserTaken.follows (h : CloserTaken grammar lane n items lane' left n') (hf : Follows n₀ b lane n) :
    (b.close grammar items).2 = left ∧ Follows n₀ (b.close grammar items).1 lane' n' ∧
      ∃ ms, n'.mismatches = n.mismatches ++ ms ∧ ∀ m ∈ ms, Minor items m := by
  cases h with
  | nil => exact ⟨rfl, hf, [], by simp, by simp⟩
  | passed hcloses =>
    rw [Brackets.close_of_not_closes hcloses]
    exact ⟨rfl, hf, [], by simp, by simp⟩
  | @stray roots _ first _ hcloses =>
    have hwaiting : b.waiting = [] := by
      have hblocks := hf.blocks
      rw [List.forall₂_nil_left_iff] at hblocks
      exact hblocks
    rw [Brackets.close_of_waiting_nil hcloses hwaiting]
    exact ⟨rfl, hf.warn_stray first.position, [], by simp [Notes.warn], by simp⟩
  | @closed _ _ _ _ _ _ first _ hcloses hterm =>
    obtain ⟨q, outer, hwaiting⟩ : ∃ q outer, b.waiting = q :: outer := by
      have hblocks := hf.blocks
      rw [List.forall₂_cons_left_iff] at hblocks
      obtain ⟨q, outer, _, _, hwaiting⟩ := hblocks
      exact ⟨q, outer, hwaiting⟩
    obtain ⟨hquiet, hts⟩ := terminalUnder_quiet hterm
    obtain ⟨ms, hms, hminor⟩ := hquiet.mismatches
    rw [Brackets.close_of_waiting_cons hcloses hwaiting]
    refine ⟨rfl, (hf.closeInnermost hwaiting hts).of_warnings hquiet.warnings, ms, hms, ?_⟩
    intro m hm
    obtain ⟨item, hitem, hposition, hid⟩ := hminor m hm
    rw [List.mem_singleton] at hitem
    subst hitem
    exact ⟨first, by simp, hposition, hid⟩

/-! ## Statements -/

/-- The path of a row below the intent that its statement was admitted with. -/
theorem Unblocked.relabel {row : OpenRow} (hrow : Unblocked row) {info : NodeInfo}
    (hinfo : info = { row.statement.info with intent := info.intent }) (b : Brackets) :
    Sound (Bounded b) (openPath { row with statement := { row.statement with info } }) := by
  have hmem : row.statement ∈ openPath row := by simp [openPath]
  have hkind : info.kind = .nonterminal := by
    rw [hinfo]
    exact hrow.sound.constructs row.statement hmem
  have hlabel : info.label ≠ "block" := by
    rw [hinfo]
    exact hrow.labels row.statement hmem
  apply hrow.sound.relabel _ (Bounded.of_plain b) hkind
  intro c _
  exact Bounded.of_plain b info c ⟨hkind, hlabel⟩

/-- An admitted statement joins the lane, with the block that was opened in it. -/
theorem Follows.addStatement (hf : Follows n₀ b lane n) {row : OpenRow} (hrow : Unblocked row) {info : NodeInfo}
    (hinfo : info = { row.statement.info with intent := info.intent }) {block : Option OpenNode} {opener : Option Position}
    (hopened : Option.Rel OpenedAt block opener) :
    Follows n₀ { b with waiting := opener.toList ++ b.waiting } (match block with
      | some node => { lane with
        blocks := ⟨node, openPath { row with statement := { row.statement with info } }⟩ :: lane.blocks }
      | none => addStatements lane (closePath (openPath { row with statement := { row.statement with info } })).toList) n := by
  have hlast : { row.statement with info } ∈ (openPath { row with statement := { row.statement with info } }).getLast? := by
    simp [openPath]
  have hkind : info.kind = .nonterminal := by
    rw [hinfo]
    exact hrow.sound.constructs row.statement (by simp [openPath])
  have hbelow : ∀ b' : Brackets, ∀ x ∈ (lanePath lane).head?, Bounded b' x.info info := by
    intro b' x hx
    exact Bounded.of_construct b' (hf.construct_of_head x hx) hkind
  cases hopened with
  | none =>
    obtain ⟨t, ht, hlinked, hroot, _⟩ := (hrow.relabel hinfo b).closePath hlast
    simp only [ht, Option.toList_some, Option.toList_none, List.nil_append]
    refine ⟨hf.linked.addStatements ?_ ?_, waitsAt_addStatements hf.blocks _, hf.strays, hf.unclosed⟩
    · intro u hu
      rw [List.mem_singleton.1 hu]
      exact hlinked
    · intro u hu x hx
      rw [List.mem_singleton.1 hu, hroot]
      exact hbelow b x hx
  | some hnode =>
    rename_i node p
    have hgrows : b.Grows { b with waiting := [p] ++ b.waiting } :=
      ⟨fun q hq => List.mem_cons_of_mem _ hq, fun e he => he⟩
    refine ⟨?_, .cons ⟨hnode.id, hnode.position⟩ hf.blocks, hf.strays, hf.unclosed⟩
    apply (hf.linked.mono (Bounded.mono hgrows)).openBlock _ hlast (hbelow _)
    -- the block holds its opener only, and stands below a statement or a group
    apply (hrow.relabel hinfo _).push _ _ hnode.kind
    · intro t ht
      obtain ⟨leaf, rfl, _, hposition⟩ := hnode.children t ht
      refine ⟨⟨hnode.kind, ?_⟩, SyntaxTree.linked_node.2 (by simp)⟩
      intro _ _
      exact ⟨p, p, hnode.id, hnode.position, hposition, Or.inl ⟨rfl, List.mem_append_left _ (by simp)⟩⟩
    · intro y hy
      exact Bounded.of_construct _ ((hrow.relabel hinfo b).constructs y (List.mem_of_mem_head? hy)) hnode.kind

/-- A finished statement of a row: it joins the lane, or is left out with all that is in it. -/
theorem addRowTree_follows (hf : Follows n₀ b lane n) {row : OpenRow} (hrow : Unblocked row) {block : Option OpenNode}
    {opener : Option Position} (hopened : Option.Rel OpenedAt block opener)
    (h : (addRowTree grammar lane row block).run n = (lane', n')) :
    (∃ m, n'.mismatches = n.mismatches ++ [m] ∧ m.nodeId = row.statement.info.id ∧
        m.position = row.statement.info.position ∧ Follows n₀ b lane' n') ∨
      n'.mismatches = n.mismatches ∧ Follows n₀ { b with waiting := opener.toList ++ b.waiting } lane' n' := by
  obtain ⟨r, n₁, hrun, h⟩ := run_bind h
  have he := entered_of_run hrun
  obtain ⟨hwarnings, ms, hms, hsome, hnone⟩ := he.quiet
  cases r with
  | none =>
    cases h
    obtain ⟨m, rfl, hid, hposition⟩ := hnone rfl
    exact Or.inl ⟨m, hms, hid, hposition, hf.of_warnings hwarnings⟩
  | some info =>
    have hlane := (hf.of_warnings hwarnings).addStatement hrow he.permits.2 hopened
    rw [hsome rfl, List.append_nil] at hms
    right
    cases block with
    | none =>
      cases h
      exact ⟨hms, hlane⟩
    | some node =>
      cases h
      exact ⟨hms, hlane⟩

/-- What was left out at a row stands in it. -/
def LeftOutIn (items : List Admitted) (ms : List Mismatch) : Prop := ∀ m ∈ ms, ∃ item ∈ items, m.position = some item.position

/-- The intents of symbols do not matter for the opener at their end. -/
theorem opener?_classified (grammar : Grammar) (items : List Admitted) :
    opener? grammar (classified grammar items) = opener? grammar items := by
  unfold opener?
  rw [classified_eq]
  rw [List.getLast?_mapIdx]
  cases items.getLast? with
  | none => rfl
  | some item => simp [Option.filter_some, apply_ite (Option.map Admitted.position)]

/-- A symbol of a row goes to the gate with its intent at its index. -/
theorem exists_of_mem_classified {item : Admitted} (h : item ∈ classified grammar items) :
    ∃ i, ∃ hi : i < items.length, items[i].position = item.position ∧
      item.intent = Intents.classify grammar (items.map (·.symbol)) i := by
  rw [classified_eq] at h
  obtain ⟨i, hi, rfl⟩ := List.mem_mapIdx.1 h
  exact ⟨i, hi, rfl, rfl⟩

theorem mem_classified {item : Admitted} (h : item ∈ classified grammar items) :
    ∃ original ∈ items, original.position = item.position := by
  obtain ⟨i, hi, hposition, _⟩ := exists_of_mem_classified h
  exact ⟨items[i], List.getElem_mem hi, hposition⟩

/-- What was left out while the symbols of a row were added stands in it. -/
theorem RowDone.leftOutIn {row row' : OpenRow} {block : Option OpenNode} {ms : List Mismatch}
    (h : RowDone grammar row n (classified grammar items) row' block n' ms) : LeftOutIn items ms := by
  intro m hm
  obtain ⟨item, hitem, hposition⟩ := (h.located m hm).1
  obtain ⟨original, horiginal, hsame⟩ := mem_classified hitem
  exact ⟨original, horiginal, by rw [hsame]; exact hposition⟩

theorem unblocked_emptyRow (laneId : Lane) (number : Nat) (first : Admitted) (rest : List Admitted) :
    Unblocked (emptyRow laneId number first rest) := by
  refine ⟨sound_emptyRow laneId number first rest, ?_⟩
  intro x hx
  rw [List.mem_singleton.1 hx]
  simp [emptyRow, constructInfo]

/-- The statement made of the symbols of a row does to the lane what the opener at the end of the row does to the brackets. -/
theorem addStatement_follows {laneId : Lane} {number : Nat} (hf : Follows n₀ b lane n)
    (hplace : ∀ item ∈ items, item.position.lane = laneId ∧ item.position.row = number)
    (h : (addStatement grammar laneId number lane items).run n = (lane', n')) :
    ∃ ms, n'.mismatches = n.mismatches ++ ms ∧ LeftOutIn items ms ∧
      Follows n₀ (b.await (refused ms) (opener? grammar items)) lane' n' := by
  cases items with
  | nil =>
    cases h
    exact ⟨[], by simp, by simp [LeftOutIn], hf⟩
  | cons first rest =>
    obtain ⟨row, block, n₁, n₂, hadded, hwarned, h⟩ := rowAdded_of_run h
    obtain ⟨ms, hdone⟩ := hadded.done (unblocked_emptyRow laneId number first rest)
    have hlane : n₂.mismatches = n₁.mismatches ∧ Follows n₀ b lane n₂ := by
      have hf₁ := hf.of_warnings hdone.warnings
      cases hwarned with
      | closed => exact ⟨rfl, hf₁⟩
      | @unclosed label => exact ⟨rfl, hf₁.warn_group label⟩
    obtain ⟨hn₂, hf₂⟩ := hlane
    have hlocated := hdone.leftOutIn
    have hopened := hdone.opened
    rw [opener?_classified] at hopened
    rcases addRowTree_follows hf₂ hdone.unblocked hopened h with ⟨m, hm, hid, hposition, hlane⟩ | ⟨hm, hlane⟩
    · rw [hdone.statement] at hid hposition
      refine ⟨ms ++ [m], ?_, ?_, ?_⟩
      · rw [hm, hn₂, hdone.mismatches, List.append_assoc]
      · intro m' hm'
        rcases List.mem_append.1 hm' with hm' | hm'
        · exact hlocated m' hm'
        · rw [List.mem_singleton.1 hm']
          exact ⟨first, by simp, hposition⟩
      · -- the statement was left out, so no opener in it waits
        rw [Brackets.await_of_refused]
        · exact hlane
        · intro p hp
          obtain ⟨item, hitem, rfl⟩ := Brackets.mem_of_opener? hp
          obtain ⟨hlaneOf, hrowOf⟩ := hplace item hitem
          obtain ⟨hfirstLane, hfirstRow⟩ := hplace first (by simp)
          apply refused_of_statement (List.mem_append_right _ (List.mem_singleton_self m)) _ hposition
          · exact hfirstLane.trans hlaneOf.symm
          · exact hfirstRow.trans hrowOf.symm
          · rw [hlaneOf, hrowOf]
            exact hid
    · refine ⟨ms, ?_, hlocated, ?_⟩
      · rw [hm, hn₂, hdone.mismatches]
      · unfold Brackets.await
        simp only [refused_of_no_statement fun m hm => (hdone.located m hm).2]
        exact hlane

/-! ## Rows of a lane -/

/-- What was left out in other rows refuses no opener. -/
theorem refused_of_leftOutIn {ms : List Mismatch} {p : Position} (h : LeftOutIn items ms)
    (hne : ∀ item ∈ items, ¬(item.position.lane = p.lane ∧ item.position.row = p.row)) : refused ms p = false := by
  apply refused_of_elsewhere
  intro m hm
  obtain ⟨item, hitem, hposition⟩ := h m hm
  exact ⟨item.position, hposition, hne item hitem⟩

theorem addRow_follows {laneId : Lane} {entry : Nat × List Admitted} (hf : Follows n₀ b lane n)
    (hplace : ∀ item ∈ entry.2, item.position.lane = laneId ∧ item.position.row = entry.1)
    (h : (addRow grammar laneId lane entry).run n = (lane', n')) :
    ∃ ms, n'.mismatches = n.mismatches ++ ms ∧ LeftOutIn entry.2 ms ∧
      Follows n₀ (b.addRow grammar (refused ms) entry.2) lane' n' := by
  obtain ⟨⟨lane₁, left⟩, n₁, hrun, h⟩ := run_bind h
  obtain ⟨hleft, hf₁, ms₁, hms₁, hminor⟩ := (closerTaken_of_run hrun).follows hf
  have hsub : ∀ item ∈ left, item ∈ entry.2 := by
    obtain ⟨taken, htaken, _⟩ : ∃ taken : List Admitted, entry.2 = taken ++ (b.close grammar entry.2).2 ∧ _ :=
      Brackets.close_perm b entry.2
    intro item hitem
    rw [htaken, hleft]
    exact List.mem_append_right _ hitem
  obtain ⟨ms₂, hms₂, hlocated, hf₂⟩ := addStatement_follows hf₁ (fun item hitem => hplace item (hsub item hitem)) h
  refine ⟨ms₁ ++ ms₂, ?_, ?_, ?_⟩
  · rw [hms₂, hms₁, List.append_assoc]
  · intro m hm
    rcases List.mem_append.1 hm with hm | hm
    · obtain ⟨item, hitem, hposition, _⟩ := hminor m hm
      exact ⟨item, hitem, hposition⟩
    · obtain ⟨item, hitem, hposition⟩ := hlocated m hm
      exact ⟨item, hsub item hitem, hposition⟩
  · have hrefused : ∀ p, refused (ms₁ ++ ms₂) p = refused ms₂ p := by
      intro p
      obtain ⟨hblock, hstatement⟩ := refused_of_minor hminor p
      rw [refused_append, refused, hblock, hstatement, Bool.or_false, Bool.false_or]
    have hboth : refused (ms₁ ++ ms₂) = refused ms₂ := funext hrefused
    unfold Brackets.addRow
    rw [hboth]
    simp only [hleft]
    exact hf₂

theorem addRows_follows {laneId : Lane} {rows : List (Nat × List Admitted)} (hf : Follows n₀ b lane n)
    (hplace : ∀ entry ∈ rows, ∀ item ∈ entry.2, item.position.lane = laneId ∧ item.position.row = entry.1)
    (hnodup : (rows.map (·.1)).Nodup) (h : (rows.foldlM (addRow grammar laneId) lane).run n = (lane', n')) :
    ∃ ms, n'.mismatches = n.mismatches ++ ms ∧ LeftOutIn (rows.flatMap (·.2)) ms ∧
      Follows n₀ (b.addRows grammar (refused ms) rows) lane' n' := by
  induction rows generalizing lane n b with
  | nil =>
    cases h
    exact ⟨[], by simp, by simp [LeftOutIn], hf⟩
  | cons entry rows ih =>
    rw [List.foldlM_cons] at h
    rw [List.map_cons, List.nodup_cons] at hnodup
    obtain ⟨lane₁, n₁, hrun, h⟩ := run_bind h
    obtain ⟨ms₁, hms₁, hfirst, hf₁⟩ := addRow_follows hf (hplace entry (by simp)) hrun
    obtain ⟨ms₂, hms₂, hrest, hf₂⟩ := ih hf₁ (fun e he => hplace e (by simp [he])) hnodup.2 h
    have happart : ∀ item ∈ entry.2, ∀ other ∈ rows.flatMap (·.2), item.position.row ≠ other.position.row := by
      intro item hitem other hother
      obtain ⟨e, he, hother⟩ := List.mem_flatMap.1 hother
      rw [(hplace entry (by simp) item hitem).2, (hplace e (by simp [he]) other hother).2]
      intro heq
      exact hnodup.1 (heq ▸ List.mem_map_of_mem he)
    refine ⟨ms₁ ++ ms₂, ?_, ?_, ?_⟩
    · rw [hms₂, hms₁, List.append_assoc]
    · intro m hm
      rw [List.flatMap_cons]
      rcases List.mem_append.1 hm with hm | hm
      · obtain ⟨item, hitem, hposition⟩ := hfirst m hm
        exact ⟨item, List.mem_append_left _ hitem, hposition⟩
      · obtain ⟨item, hitem, hposition⟩ := hrest m hm
        exact ⟨item, List.mem_append_right _ hitem, hposition⟩
    · have hrow : b.addRow grammar (refused (ms₁ ++ ms₂)) entry.2 = b.addRow grammar (refused ms₁) entry.2 := by
        apply Brackets.addRow_congr
        intro item hitem
        have helse : refused ms₂ item.position = false := by
          apply refused_of_leftOutIn hrest
          rintro other hother ⟨_, hrowOf⟩
          exact happart item hitem other hother hrowOf.symm
        rw [refused_append, helse, Bool.or_false]
      have hrows : (b.addRow grammar (refused ms₁) entry.2).addRows grammar (refused (ms₁ ++ ms₂)) rows =
          (b.addRow grammar (refused ms₁) entry.2).addRows grammar (refused ms₂) rows := by
        apply Brackets.addRows_congr
        intro other hother
        have helse : refused ms₁ other.position = false := by
          apply refused_of_leftOutIn hfirst
          rintro item hitem ⟨_, hrowOf⟩
          exact happart item hitem other hother hrowOf
        rw [refused_append, helse, Bool.false_or]
      rw [Brackets.addRows_cons, hrow, hrows]
      exact hf₂

end Assembly

end TokenForest
