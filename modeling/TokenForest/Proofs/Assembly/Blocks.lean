import TokenForest.Proofs.Assembly.Brackets
import TokenForest.Proofs.Assembly.Statements

/-!
# Rows without blocks

Inside a row every node that gets children is the statement or a group, and what is left out there is a terminal or a group. So the
notes on a row tell whether its block and its statement were admitted, and no edge inside it starts at a block.
-/

namespace TokenForest

namespace Assembly

variable {grammar : Grammar} {n n' n'' : Notes} {items items' : List Admitted} {item : Admitted}

/-! ## Notes on blocks and statements -/

/-- The node left out is a terminal or a group at one of the symbols. -/
def Minor (items : List Admitted) (m : Mismatch) : Prop :=
  ∃ item ∈ items, m.position = some item.position ∧
    (m.nodeId = s!"t_{item.position.label}" ∨ m.nodeId = s!"g_{item.position.label}")

theorem Minor.mono {m : Mismatch} (h : Minor items m) (hsub : ∀ item ∈ items, item ∈ items') : Minor items' m := by
  obtain ⟨item, hitem, hm⟩ := h
  exact ⟨item, hsub item hitem, hm⟩

/-- Names that begin with different characters are different. -/
theorem ne_of_head? {a b : String} {c d : Char} (ha : a.toList.head? = some c) (hb : b.toList.head? = some d) (h : c ≠ d) :
    a ≠ b := by
  rintro rfl
  rw [ha] at hb
  exact h (Option.some.inj hb)

theorem head?_append {a b : String} {c : Char} (h : a.toList.head? = some c) : (a ++ b).toList.head? = some c := by
  rw [String.toList_append, List.head?_append, h]
  rfl

theorem head?_statementId (lane : Lane) (row : Nat) : (statementId lane row).toList.head? = some 's' := by
  cases lane with
  | none => exact head?_append rfl
  | some l => exact head?_append (head?_append (head?_append rfl))

/-- A terminal or a group has another name than every block and every statement. -/
theorem Minor.ne {m : Mismatch} (h : Minor items m) :
    (∀ p, m.nodeId ≠ blockId p) ∧ ∀ lane row, m.nodeId ≠ statementId lane row := by
  obtain ⟨item, _, _, hid⟩ := h
  have hhead : ∃ c, m.nodeId.toList.head? = some c ∧ c ≠ 'b' ∧ c ≠ 's' := by
    rcases hid with hid | hid
    · exact ⟨'t', by rw [hid]; exact head?_append rfl, by decide, by decide⟩
    · exact ⟨'g', by rw [hid]; exact head?_append rfl, by decide, by decide⟩
  obtain ⟨c, hc, hb, hs⟩ := hhead
  exact ⟨fun p => ne_of_head? hc (head?_append rfl) hb, fun lane row => ne_of_head? hc (head?_statementId lane row) hs⟩

/-- Terminals and groups that were left out refuse no opener. -/
theorem refused_of_minor {ms : List Mismatch} (h : ∀ m ∈ ms, Minor items m) (p : Position) :
    blockRefused ms p = false ∧ statementRefused ms p = false := by
  unfold blockRefused statementRefused
  rw [List.any_eq_false, List.any_eq_false]
  constructor
  · intro m hm
    have hne := (h m hm).ne.1 p
    simp [hne]
  · intro m hm
    have hne := (h m hm).ne.2 p.lane p.row
    simp [hne]

theorem refused_append (a b : List Mismatch) (p : Position) : refused (a ++ b) p = (refused a p || refused b p) := by
  unfold refused blockRefused statementRefused
  rw [List.any_append, List.any_append]
  ac_rfl

/-- The opener of a row is refused when the statement of the row was left out. -/
theorem refused_of_statement {ms : List Mismatch} {m : Mismatch} {p q : Position} (hm : m ∈ ms)
    (hid : m.nodeId = statementId p.lane p.row) (hposition : m.position = some q) (hlane : q.lane = p.lane)
    (hrow : q.row = p.row) : refused ms p = true := by
  have hstatement : statementRefused ms p = true := by
    unfold statementRefused
    rw [List.any_eq_true]
    exact ⟨m, hm, by simp [hid, hposition, hlane, hrow]⟩
  unfold refused
  rw [hstatement, Bool.or_true]

/-- Where no statement was left out, only blocks are refused. -/
theorem refused_of_no_statement {ms : List Mismatch} (h : ∀ m ∈ ms, ∀ lane number, m.nodeId ≠ statementId lane number)
    (p : Position) : refused ms p = blockRefused ms p := by
  have hstatement : statementRefused ms p = false := by
    unfold statementRefused
    rw [List.any_eq_false]
    intro m hm
    simp [h m hm]
  unfold refused
  rw [hstatement, Bool.or_false]

/-- What was left out in another row refuses no opener of this one. -/
theorem refused_of_elsewhere {ms : List Mismatch} {p : Position}
    (h : ∀ m ∈ ms, ∃ q, m.position = some q ∧ ¬(q.lane = p.lane ∧ q.row = p.row)) : refused ms p = false := by
  unfold refused blockRefused statementRefused
  rw [Bool.or_eq_false_iff, List.any_eq_false, List.any_eq_false]
  constructor
  · intro m hm
    obtain ⟨q, hq, hne⟩ := h m hm
    have hqp : q ≠ p := by
      rintro rfl
      exact hne ⟨rfl, rfl⟩
    simp [hq, hqp]
  · intro m hm
    obtain ⟨q, hq, hne⟩ := h m hm
    simp [hq, hne]

/-! ## Quiet steps -/

/-- The step warns of nothing and leaves out only nodes of this kind. -/
structure Quiet (P : Mismatch → Prop) (n n' : Notes) : Prop where
  warnings : n'.warnings = n.warnings
  mismatches : ∃ ms, n'.mismatches = n.mismatches ++ ms ∧ ∀ m ∈ ms, P m

namespace Quiet

variable {P Q : Mismatch → Prop}

theorem refl (n : Notes) : Quiet P n n := ⟨rfl, [], by simp, by simp⟩

theorem trans (h : Quiet P n n') (h' : Quiet P n' n'') : Quiet P n n'' := by
  obtain ⟨ms, hms, hP⟩ := h.mismatches
  obtain ⟨ms', hms', hP'⟩ := h'.mismatches
  refine ⟨h'.warnings.trans h.warnings, ms ++ ms', ?_, ?_⟩
  · rw [hms', hms, List.append_assoc]
  · intro m hm
    rcases List.mem_append.1 hm with hm | hm
    · exact hP m hm
    · exact hP' m hm

theorem mono (h : Quiet P n n') (hPQ : ∀ m, P m → Q m) : Quiet Q n n' := by
  obtain ⟨ms, hms, hP⟩ := h.mismatches
  exact ⟨h.warnings, ms, hms, fun m hm => hPQ m (hP m hm)⟩

end Quiet

/-- The gate warns of nothing. A node that is admitted is not left out; one that is not, is. -/
theorem Entered.quiet {parent : Option NodeInfo} {child : NodeInfo} {r : Option NodeInfo}
    (h : Entered grammar parent child n r n') : n'.warnings = n.warnings ∧
      ∃ ms, n'.mismatches = n.mismatches ++ ms ∧ (r.isSome = true → ms = []) ∧
        (r = none → ∃ m, ms = [m] ∧ m.nodeId = child.id ∧ m.position = child.position) := by
  cases h with
  | admitted => exact ⟨rfl, [], by simp, fun _ => rfl, by simp⟩
  | coerced => exact ⟨rfl, [], by simp [Notes.coerce], fun _ => rfl, by simp⟩
  | leftOut => exact ⟨rfl, _, rfl, by simp, fun _ => ⟨_, rfl, rfl, rfl⟩⟩

/-- A node that is admitted, or is of a kind that may be left out, passes quietly. -/
theorem Entered.quiet_of {P : Mismatch → Prop} {parent : Option NodeInfo} {child : NodeInfo} {r : Option NodeInfo}
    (h : Entered grammar parent child n r n') (hP : ∀ m, m.nodeId = child.id → m.position = child.position → P m) :
    Quiet P n n' := by
  obtain ⟨hwarnings, ms, hms, hsome, hnone⟩ := h.quiet
  refine ⟨hwarnings, ms, hms, ?_⟩
  intro m hm
  cases r with
  | none =>
    obtain ⟨m', rfl, hid, hposition⟩ := hnone rfl
    rw [List.mem_singleton] at hm
    subst hm
    exact hP m hid hposition
  | some info =>
    rw [hsome rfl] at hm
    simp at hm

/-! ## Edges that start at no block -/

/-- The parent is a construct other than a block. -/
def Plain (parent _child : NodeInfo) : Prop := parent.kind = .nonterminal ∧ parent.label ≠ "block"

/-- The terminal of a symbol below a parent: a leaf at the position of the symbol, or nothing. -/
theorem terminalUnder_quiet {parent : NodeInfo} {ts : List SyntaxTree}
    (h : (terminalUnder grammar parent item).run n = (ts, n')) : Quiet (Minor [item]) n n' ∧
      ∀ t ∈ ts, ∃ info, t = .node info [] ∧ info.kind = .terminal ∧ info.position = some item.position := by
  obtain ⟨r, he, rfl⟩ := leaf_of_run h
  constructor
  · apply he.quiet_of
    intro m hid hposition
    exact ⟨item, by simp, hposition, Or.inl hid⟩
  · intro t ht
    cases r with
    | none => simp at ht
    | some info =>
      simp only [Option.map_some, Option.toList_some, List.mem_singleton] at ht
      subst ht
      obtain ⟨_, hinfo⟩ := he.permits
      refine ⟨info, rfl, ?_, ?_⟩
      · rw [hinfo]
        rfl
      · rw [hinfo]
        rfl

/-- A leaf has no edge. -/
theorem linked_leaf {R : NodeInfo → NodeInfo → Prop} {ts : List SyntaxTree} (h : ∀ t ∈ ts, ∃ info, t = SyntaxTree.node info [])
    : ∀ t ∈ ts, t.Linked R := by
  intro t ht
  obtain ⟨info, rfl⟩ := h t ht
  exact SyntaxTree.linked_node.2 (by simp)

/-- A row without a block: its edges start at statements and groups, which are the nodes open in it. -/
structure Unblocked (row : OpenRow) : Prop where
  sound : Sound Plain (openPath row)
  labels : ∀ x ∈ openPath row, x.info.label ≠ "block"

/-- What adding some symbols does to a row without a block. -/
structure RowStep (row : OpenRow) (n : Notes) (items : List Admitted) (row' : OpenRow) (n' : Notes) : Prop where
  quiet : Quiet (Minor items) n n'
  unblocked : Unblocked row'
  statement : row'.statement.info = row.statement.info

section RowStep

variable {row row' row'' : OpenRow}

theorem RowStep.trans (h : RowStep row n items row' n') (h' : RowStep row' n' items' row'' n'') :
    RowStep row n (items ++ items') row'' n'' := by
  refine ⟨?_, h'.unblocked, h'.statement.trans h.statement⟩
  refine (h.quiet.mono fun m hm => hm.mono ?_).trans (h'.quiet.mono fun m hm => hm.mono ?_)
  · intro x hx
    exact List.mem_append_left _ hx
  · intro x hx
    exact List.mem_append_right _ hx

end RowStep

/-! ## One symbol -/

section ItemAdded

variable {path path' : List OpenNode}

/-- What becomes of a symbol below a construct other than a block is a leaf there. -/
theorem plain_leaves {parent : NodeInfo} {ts : List SyntaxTree} (hkind : parent.kind = .nonterminal) (hlabel : parent.label ≠ "block")
    (h : (terminalUnder grammar parent item).run n = (ts, n')) :
    Quiet (Minor [item]) n n' ∧ ∀ t ∈ ts, Plain parent t.info ∧ t.Linked Plain := by
  obtain ⟨hquiet, hts⟩ := terminalUnder_quiet h
  refine ⟨hquiet, fun t ht => ?_⟩
  obtain ⟨leaf, rfl, _⟩ := hts t ht
  exact ⟨⟨hkind, hlabel⟩, SyntaxTree.linked_node.2 (by simp)⟩

/-- A symbol leaves out a terminal or a group at most, and opens no block. -/
theorem ItemAdded.plain (h : ItemAdded grammar item n path path' n') (hs : Sound Plain path)
    (hl : ∀ x ∈ path, x.info.label ≠ "block") :
    Quiet (Minor [item]) n n' ∧ Sound Plain path' ∧ ∀ x ∈ path', x.info.label ≠ "block" := by
  have hgate : ∀ {parent : Option NodeInfo} {intent : Intent} {r : Option NodeInfo} {n₁ : Notes},
      Entered grammar parent (groupInfo item intent) n r n₁ → Quiet (Minor [item]) n n₁ := by
    intro parent intent r n₁ he
    apply he.quiet_of
    intro m hid hposition
    exact ⟨item, by simp, hposition, Or.inr hid⟩
  cases h with
  | refused he => exact ⟨hgate he, hs, hl⟩
  | opened he hterm =>
    rename_i x path intent info n₁ ts
    have hkind : info.kind = .nonterminal := by
      rw [he.permits.2]
      rfl
    have hlabel : info.label ≠ "block" := by
      have hgroup : "group" ≠ "block" := by decide
      rw [he.permits.2]
      exact hgroup
    obtain ⟨hquiet, hts⟩ := plain_leaves hkind hlabel hterm
    refine ⟨(hgate he).trans hquiet, hs.push hts ?_ hkind, List.forall_mem_cons.2 ⟨hlabel, hl⟩⟩
    intro y hy
    have hmem := List.mem_of_mem_head? hy
    exact ⟨hs.constructs y hmem, hl y hmem⟩
  | closed hterm =>
    rename_i x y path ts
    obtain ⟨hquiet, hts⟩ := plain_leaves (hs.constructs x (by simp)) (hl x (by simp)) hterm
    refine ⟨hquiet, (hs.add hts).pop, List.forall_mem_cons.2 ⟨hl y (by simp), ?_⟩⟩
    intro z hz
    exact hl z (by simp [hz])
  | terminal hterm =>
    rename_i x path ts
    obtain ⟨hquiet, hts⟩ := plain_leaves (hs.constructs x (by simp)) (hl x (by simp)) hterm
    exact ⟨hquiet, hs.add hts, List.forall_mem_cons.2 ⟨hl x (by simp), fun z hz => hl z (by simp [hz])⟩⟩

theorem ItemAdded.rowStep {row row' : OpenRow} (h : ItemAdded grammar item n (openPath row) (openPath row') n')
    (hrow : Unblocked row) : RowStep row n [item] row' n' := by
  obtain ⟨hquiet, hsound, hlabels⟩ := h.plain hrow.sound hrow.labels
  exact ⟨hquiet, ⟨hsound, hlabels⟩, h.statement⟩

end ItemAdded

/-! ## All symbols of a row -/

/-- An open block that has nothing but its opener, at this position. -/
structure OpenedAt (node : OpenNode) (p : Position) : Prop where
  id : node.info.id = blockId p
  kind : node.info.kind = .nonterminal
  position : node.info.position = some p
  children : ∀ t ∈ node.children, ∃ info, t = .node info [] ∧ info.kind = .terminal ∧ info.position = some p

/-- What adding the symbols of a row does: the nodes left out stand in the row and are no statements, and a block is open at the
end exactly when the last symbol opens one and it was not left out. -/
structure RowDone (grammar : Grammar) (row : OpenRow) (n : Notes) (items : List Admitted) (row' : OpenRow)
    (block : Option OpenNode) (n' : Notes) (ms : List Mismatch) : Prop where
  warnings : n'.warnings = n.warnings
  mismatches : n'.mismatches = n.mismatches ++ ms
  located : ∀ m ∈ ms, (∃ item ∈ items, m.position = some item.position) ∧ ∀ lane number, m.nodeId ≠ statementId lane number
  unblocked : Unblocked row'
  statement : row'.statement.info = row.statement.info
  opened : Option.Rel OpenedAt block ((opener? grammar items).filter (fun p => !blockRefused ms p))

theorem opener?_singleton (grammar : Grammar) (item : Admitted) :
    opener? grammar [item] = if grammar.opensBlock item.symbol.lexeme then some item.position else none := by
  rw [opener?, List.getLast?_singleton, Option.filter_some]
  split <;> rfl

theorem Minor.located {m : Mismatch} (h : Minor items m) :
    (∃ item ∈ items, m.position = some item.position) ∧ ∀ lane number, m.nodeId ≠ statementId lane number := by
  obtain ⟨item, hitem, hposition, _⟩ := id h
  exact ⟨⟨item, hitem, hposition⟩, h.ne.2⟩

/-- A row without an opener at its end. -/
theorem RowStep.done {row row' : OpenRow} (h : RowStep row n items row' n') (hopener : opener? grammar items = none) :
    ∃ ms, RowDone grammar row n items row' none n' ms := by
  obtain ⟨ms, hms, hminor⟩ := h.quiet.mismatches
  refine ⟨ms, h.quiet.warnings, hms, fun m hm => (hminor m hm).located, h.unblocked, h.statement, ?_⟩
  rw [hopener]
  exact .none

/-- A row whose first symbols leave out only terminals and groups. -/
theorem RowStep.trans_done {row row₁ row' : OpenRow} {block : Option OpenNode} {n₁ : Notes} {ms : List Mismatch}
    (h : RowStep row n items row₁ n₁) (h' : RowDone grammar row₁ n₁ items' row' block n' ms) (hne : items' ≠ []) :
    ∃ ms, RowDone grammar row n (items ++ items') row' block n' ms := by
  obtain ⟨first, hfirst, hminor⟩ := h.quiet.mismatches
  refine ⟨first ++ ms, h'.warnings.trans h.quiet.warnings, ?_, ?_, h'.unblocked, h'.statement.trans h.statement, ?_⟩
  · rw [h'.mismatches, hfirst, List.append_assoc]
  · intro m hm
    rcases List.mem_append.1 hm with hm | hm
    · exact ((hminor m hm).mono fun x hx => List.mem_append_left _ hx).located
    · obtain ⟨⟨x, hx, hposition⟩, hid⟩ := h'.located m hm
      exact ⟨⟨x, List.mem_append_right _ hx, hposition⟩, hid⟩
  · have hopener : opener? grammar (items ++ items') = opener? grammar items' := by
      rw [opener?, opener?, List.getLast?_append_of_ne_nil items hne]
    have hrefused : ∀ p, blockRefused (first ++ ms) p = blockRefused ms p := by
      intro p
      have hfirst := (refused_of_minor hminor p).1
      rw [blockRefused] at hfirst ⊢
      rw [List.any_append, hfirst, Bool.false_or]
      rfl
    rw [hopener]
    simp only [hrefused]
    exact h'.opened

/-- The symbols of a row leave out terminals, groups and perhaps the block at the end. -/
theorem RowAdded.done {row row' : OpenRow} {block : Option OpenNode} (h : RowAdded grammar row n items row' block n')
    (hrow : Unblocked row) : ∃ ms, RowDone grammar row n items row' block n' ms := by
  induction h with
  | nil => exact ⟨[], rfl, by simp, by simp, hrow, rfl, .none⟩
  | @refused _ item _ n n' hopens he =>
    obtain ⟨hwarnings, ms, hms, _, hnone⟩ := he.quiet
    obtain ⟨m, rfl, hid, hposition⟩ := hnone rfl
    refine ⟨[m], hwarnings, hms, ?_, hrow, rfl, ?_⟩
    · intro m' hm'
      rw [List.mem_singleton] at hm'
      subst hm'
      refine ⟨⟨item, by simp, hposition⟩, fun lane number => ?_⟩
      rw [hid]
      exact ne_of_head? (head?_append rfl) (head?_statementId lane number) (by decide)
    · have hrefused : blockRefused [m] item.position = true := by
        rw [blockRefused, List.any_cons, List.any_nil, Bool.or_false, decide_eq_true_eq]
        exact ⟨hid, hposition⟩
      rw [opener?_singleton, if_pos hopens, Option.filter_some, hrefused]
      exact .none
  | @opened _ item _ info n n₁ n' ts hopens he hterm =>
    obtain ⟨hwarnings, ms, hms, hsome, _⟩ := he.quiet
    obtain ⟨hquiet, hts⟩ := terminalUnder_quiet hterm
    obtain ⟨ms', hms', hminor⟩ := hquiet.mismatches
    rw [hsome rfl, List.append_nil] at hms
    refine ⟨ms', hquiet.warnings.trans hwarnings, ?_, fun m hm => (hminor m hm).located, hrow, rfl, ?_⟩
    · rw [hms', hms]
    · obtain ⟨_, hinfo⟩ := he.permits
      rw [opener?_singleton, if_pos hopens, Option.filter_some, (refused_of_minor hminor item.position).1]
      refine .some ⟨?_, ?_, ?_, hts⟩
      · rw [hinfo]
        rfl
      · rw [hinfo]
        rfl
      · rw [hinfo]
        rfl
  | @last _ _ item _ _ hopens h =>
    refine (h.rowStep hrow).done ?_
    rw [opener?_singleton, hopens]
    rfl
  | cons h _ ih =>
    have hstep := h.rowStep hrow
    obtain ⟨ms, hdone⟩ := ih hstep.unblocked
    exact hstep.trans_done hdone (by simp)

end Assembly

end TokenForest
